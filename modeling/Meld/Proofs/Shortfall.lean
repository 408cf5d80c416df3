import Meld.Proofs.Shortest
import Meld.Snapshot.Restore

namespace Meld.Automaton

variable {a : Automaton} {p : Phase} {hand : List Card}

/-- A hand that is accepted can be picked whole. -/
theorem picks_range (hne : hand ≠ []) (accepted : a.accepts hand = true) :
    a.Picks hand (List.range hand.length) where
  ne_nil := by
    rw [Ne, List.range_eq_nil, List.length_eq_zero_iff]
    exact hne
  rising := List.pairwise_lt_range
  within _ := List.mem_range.1
  accepted := by rwa [cardsAt_range]

/-- A search finds some of the cards of an accepted hand, unless the phase asks for more cards than
the hand has. Nothing but the phase tells how many these are: the graph may be content with fewer,
and there may be too many of them to count. -/
theorem canPick_iff_of_accepts (hne : hand ≠ []) (hle : hand.length ≤ handLimit)
    (accepted : a.accepts hand = true) :
    (a.canPick hand = .ok true ↔ a.phase.minCards ≤ hand.length) ∧
    (a.canPick hand = .ok false ↔
      a.phase.minCards < UInt64.size ∧ hand.length < a.phase.minCards) ∧
    ∀ e, a.canPick hand = .error e ↔ UInt64.size ≤ a.phase.minCards := by
  have whole : hand.take handLimit = hand := List.take_of_length_le hle
  have picks := picks_range hne accepted
  refine ⟨?_, ?_, fun e => canPick_eq_error_iff⟩
  · simp only [canPick_eq_true_iff, pick?_eq_some_iff, whole, exists_and_left]
    exact and_iff_left (exists_picksFirst picks)
  · rw [canPick_eq_false_iff, pick?_eq_none_iff, whole]
    exact and_congr_right fun _ => or_iff_left fun none => none _ picks

/-- The graph of a set of one card, with a phase that asks for more of them than a deck has. -/
def overstated : Automaton := { compile (.sized [⟨.set, 1⟩]) with phase := .sized [⟨.set, 200⟩] }

def redFive : Card := ⟨.red, .number 4, by decide, by decide⟩

theorem canPick_overstated : overstated.accepts [redFive] = true ∧
    overstated.canPick [redFive] = .ok false := by
  have accepted : overstated.accepts [redFive] = true := by decide
  have answers := canPick_iff_of_accepts (by decide) (by decide) accepted
  exact ⟨accepted, answers.2.1.2 (by decide)⟩

/-- Changing the size in a snapshot hides accepted hands from a search. -/
theorem not_canPick_of_ofBytes : ¬∀ (bytes : List UInt8) (a : Automaton) (hand : List Card),
    ofBytes bytes = .ok a → hand ≠ [] → hand.length ≤ handLimit → a.accepts hand = true →
      a.canPick hand = .ok true := by
  intro h
  -- The size of the only component is the fourth byte.
  have restored : ofBytes ((compile (.sized [⟨.set, 1⟩])).toBytes.set 3 200) = .ok overstated := by
    decide +kernel
  have found := h _ overstated [redFive] restored (by decide) (by decide) (by decide)
  have missed : overstated.canPick [redFive] = .ok false := by decide
  exact absurd (missed.symm.trans found) (by decide)

/-- A phase asks for no more cards than the graph that it compiles to accepts. -/
theorem canPick_compile_of_accepts (h : p.Legal) (small : (compile p).size < UInt32.size)
    (hle : hand.length ≤ handLimit) (accepted : (compile p).accepts hand = true) :
    (compile p).canPick hand = .ok true := by
  rw [canPick_compile_iff h small, List.take_of_length_le hle]
  exact ⟨hand, List.Sublist.refl hand, accepted⟩

end Meld.Automaton
