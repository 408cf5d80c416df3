import Meld.Proofs.Frontier
import Meld.Proofs.Legal

namespace Meld.Automaton

def Outcome.Fits (a : Automaton) (hand : List Card) (len : Nat) (todo : List Choice) :
    Outcome → Prop
  | found mask => a.PicksFirst hand mask.positions
  | pending queue seen => a.Frontier hand len todo queue seen

def Search.Settles (a : Automaton) (hand : List Card) (s : Search) : Prop :=
  match s.positions? with
  | some l => a.PicksFirst hand l
  | none => ∀ l, ¬a.Picks hand l

variable {a : Automaton} {hand : List Card} {len : Nat} {todo queue : List Choice} {seen : Seen}

namespace Search.Settles

variable {s : Search} {l : List Nat}

theorem eq_some_iff (h : s.Settles a hand) : s.positions? = some l ↔ a.PicksFirst hand l := by
  unfold Settles at h
  split at h
  · next m found =>
    rw [found, Option.some.injEq]
    constructor
    · rintro rfl
      exact h
    · exact h.unique
  · next none =>
    rw [none]
    exact iff_of_false nofun fun first => h l first.1

theorem eq_none_iff (h : s.Settles a hand) : s.positions? = none ↔ ∀ l, ¬a.Picks hand l := by
  unfold Settles at h
  split at h
  · next m found =>
    rw [found]
    exact iff_of_false nofun fun vain => vain m h.1
  · next none =>
    rw [none]
    exact iff_of_true rfl h

end Search.Settles

theorem extend_fits {c : Choice} {k : Nat} {rest : List (Card × Nat)}
    (h : a.Frontier hand len ({ c with free := k } :: todo) queue seen)
    (hr : hand.zipIdx.drop k = rest) :
    (a.extend c rest queue seen).Fits a hand len todo := by
  induction rest generalizing k queue seen with
  | nil =>
    have hl := List.drop_eq_nil_iff.1 hr
    rw [List.length_zipIdx] at hl
    exact h.done hl
  | cons e rest ih =>
    obtain ⟨card, i⟩ := e
    have he : hand.zipIdx[k]? = some (card, i) := by
      rw [← List.head?_drop, hr, List.head?_cons]
    obtain ⟨hc, rfl⟩ : hand[k]? = some card ∧ k = i := by
      simpa [List.getElem?_zipIdx] using he
    have hr' : hand.zipIdx.drop (k + 1) = rest := by
      rw [← List.tail_drop, hr, List.tail_cons]
    unfold extend
    split
    · next hs => exact ih (h.skip_of_refused hc hs) hr'
    · next id hs =>
      split
      · next hf =>
        have hp := h.found hc hs hf
        rwa [← h.head.positions_add h.short hc id] at hp
      · next hf =>
        split
        · next hi => exact ih (h.skip_of_seen hc hs hi) hr'
        · exact ih (h.push hc hs (Bool.eq_false_iff.2 hf)) hr'

theorem sweep_fits (h : a.Frontier hand len todo queue seen) (explored : Nat) :
    (a.sweep hand.zipIdx todo explored queue seen).1.Fits a hand len [] := by
  induction todo generalizing queue seen explored with
  | nil => exact h
  | cons c todo ih =>
    have hx := extend_fits (c := c) h rfl
    unfold sweep
    split
    · next he =>
      rw [he] at hx
      exact hx
    · next he =>
      rw [he] at hx
      exact ih hx _

theorem searchFrom_settles {lengths : Nat} (h : a.Frontier hand len todo [] seen)
    (hl : hand.length ≤ len + lengths) (explored : Nat) :
    (a.searchFrom hand.zipIdx lengths todo explored seen).Settles a hand := by
  induction lengths generalizing len todo seen explored with
  | zero => exact h.not_picks hl
  | succ lengths ih =>
    have hx := sweep_fits h explored
    unfold searchFrom
    split
    · next he =>
      rw [he] at hx
      exact hx
    · next he =>
      rw [he] at hx
      exact ih hx.turn (by omega) _

theorem search?_eq (a : Automaton) (hand : List Card) : a.search? hand =
    if a.phase.minCards < UInt64.size then
      .ok (if (hand.take handLimit).length < a.phase.minCards then none
        else some (a.searchFrom (hand.take handLimit).zipIdx ((hand.take handLimit).length + 1)
          [⟨0, 0, a.start⟩] 0 ∅))
    else .error .overflow := by
  rw [search?, Phase.cardsNeeded_eq]
  split
  · next fits =>
    rw [Except.map, UInt64.toNat_ofNat_of_lt' fits]
  · rfl

/-- No search is made where too many cards are asked for to be counted, or more than there are. One
that is made settles what can be picked. -/
theorem pick?_cases (a : Automaton) (hand : List Card) :
    UInt64.size ≤ a.phase.minCards ∧ a.pick? hand = .error .overflow ∨
    (a.phase.minCards < UInt64.size ∧ (hand.take handLimit).length < a.phase.minCards) ∧
      a.pick? hand = .ok none ∨
    (a.phase.minCards < UInt64.size ∧ a.phase.minCards ≤ (hand.take handLimit).length) ∧
      ∃ s : Search, s.Settles a (hand.take handLimit) ∧ a.pick? hand = .ok s.positions? := by
  rw [pick?, search?_eq]
  split
  · next fits =>
    split
    · next few => exact .inr (.inl ⟨⟨fits, few⟩, rfl⟩)
    · next enough =>
      -- a choice of more lengths than there are cards is not made, so the search may end there
      have short : (hand.take handLimit).length ≤ handLimit := List.length_take_le handLimit hand
      have most : (hand.take handLimit).length ≤ 0 + ((hand.take handLimit).length + 1) := by omega
      have settles := searchFrom_settles (Frontier.initial a short) most 0
      exact .inr (.inr ⟨⟨fits, Nat.le_of_not_lt enough⟩, _, settles, rfl⟩)
  · next large => exact .inl ⟨Nat.le_of_not_lt large, rfl⟩

theorem search?_eq_error_iff {e : Phase.CountError} :
    a.search? hand = .error e ↔ UInt64.size ≤ a.phase.minCards := by
  rw [search?, map_eq_error_iff, Phase.cardsNeeded_eq_error_iff]

theorem pick?_eq_error_iff {e : Phase.CountError} :
    a.pick? hand = .error e ↔ UInt64.size ≤ a.phase.minCards := by
  rw [pick?, map_eq_error_iff, search?_eq_error_iff]

/-- A search finds the earliest positions that can be picked from the cards it looks at. -/
theorem pick?_eq_some_iff {l : List Nat} : a.pick? hand = .ok (some l) ↔
    a.phase.minCards ≤ (hand.take handLimit).length ∧ a.PicksFirst (hand.take handLimit) l := by
  have most : (hand.take handLimit).length < UInt64.size :=
    (List.length_take_le handLimit hand).trans_lt (by decide)
  rcases pick?_cases a hand with ⟨large, he⟩ | ⟨⟨-, few⟩, he⟩ | ⟨⟨-, enough⟩, s, settles, he⟩
  · rw [he]
    exact iff_of_false nofun fun h => absurd (most.trans_le large) (Nat.not_lt_of_le h.1)
  · rw [he]
    exact iff_of_false nofun fun h => absurd h.1 (Nat.not_le_of_lt few)
  · rw [he, Except.ok.injEq, and_iff_right enough]
    exact settles.eq_some_iff

theorem pick?_eq_none_iff : a.pick? hand = .ok none ↔ a.phase.minCards < UInt64.size ∧
    ((hand.take handLimit).length < a.phase.minCards ∨
      ∀ l, ¬a.Picks (hand.take handLimit) l) := by
  rcases pick?_cases a hand with ⟨large, he⟩ | ⟨⟨fits, few⟩, he⟩ | ⟨⟨fits, enough⟩, s, settles, he⟩
  · rw [he]
    exact iff_of_false nofun fun h => Nat.not_lt_of_le large h.1
  · rw [he]
    exact iff_of_true rfl ⟨fits, .inl few⟩
  · rw [he, Except.ok.injEq, and_iff_right fits, or_iff_right (Nat.not_lt_of_le enough)]
    exact settles.eq_none_iff

theorem canPick_eq_true_iff : a.canPick hand = .ok true ↔ ∃ l, a.pick? hand = .ok (some l) := by
  rw [canPick, map_eq_ok_iff]
  constructor
  · rintro ⟨found, picked, some⟩
    obtain ⟨l, rfl⟩ := Option.isSome_iff_exists.1 some
    exact ⟨l, picked⟩
  · rintro ⟨l, picked⟩
    exact ⟨some l, picked, rfl⟩

theorem canPick_eq_false_iff : a.canPick hand = .ok false ↔ a.pick? hand = .ok none := by
  rw [canPick, map_eq_ok_iff]
  constructor
  · rintro ⟨found, picked, none⟩
    rw [picked, Option.not_isSome_iff_eq_none.1 (Bool.eq_false_iff.1 none)]
  · exact fun picked => ⟨none, picked, rfl⟩

theorem canPick_eq_error_iff {e : Phase.CountError} :
    a.canPick hand = .error e ↔ UInt64.size ≤ a.phase.minCards := by
  rw [canPick, map_eq_error_iff, pick?_eq_error_iff]

/-- A search answers as if it tried all positions of the cards it looks at: those that are picked
come before all others that could be. -/
theorem pick?_least (a : Automaton) (hand : List Card) :
    (∀ l, a.pick? hand = .ok (some l) ↔
      a.phase.minCards ≤ (hand.take handLimit).length ∧
      a.Picks (hand.take handLimit) l ∧
      ∀ m, a.Picks (hand.take handLimit) m → m = l ∨ Earlier l m) ∧
    (a.pick? hand = .ok none ↔ a.phase.minCards < UInt64.size ∧
      ((hand.take handLimit).length < a.phase.minCards ∨
        ∀ l, ¬a.Picks (hand.take handLimit) l)) ∧
    (∀ e, a.pick? hand = .error e ↔ UInt64.size ≤ a.phase.minCards) ∧
    ∀ n, a.phase.cardsNeeded = .ok n ↔ n.toNat = a.phase.minCards :=
  ⟨fun _ => pick?_eq_some_iff, pick?_eq_none_iff, fun _ => pick?_eq_error_iff,
    fun _ => Phase.cardsNeeded_eq_ok_iff⟩

end Meld.Automaton
