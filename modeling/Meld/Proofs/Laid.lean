import Meld.Proofs.Orderly
import Meld.Automaton.Walk

namespace Meld

open Blueprint

namespace Blueprint

/-- What completes a plan leads on to the plans after it, the first of which starts at `next`. -/
def exitTo (next : Nat) : List Plan → Exit
  | [] => .finish
  | p :: _ => .join (p.stateId next .start)

theorem layout_cons (base : Nat) (p : Plan) (ps : List Plan) :
    layout base (p :: ps) =
      p.states base (exitTo (base + p.size) ps) ++ layout (base + p.size) ps := by
  cases ps with
  | nil => simp only [layout, exitTo, List.append_nil]
  | cons q ps => rfl

end Blueprint

namespace Automaton

structure Laid (a : Automaton) (base : Nat) (plans : List Plan) : Prop where
  small : a.size < UInt32.size
  orderly : ∀ p ∈ plans, p.Orderly
  states_eq : a.states.toList.drop base = layout base plans

namespace Laid

variable {a : Automaton} {base : Nat} {p p' : Plan} {ps : List Plan} {q : Place}

theorem head (h : a.Laid base (p :: ps)) : p.Orderly := h.orderly p List.mem_cons_self

theorem tail (h : a.Laid base (p :: ps)) : a.Laid (base + p.size) ps where
  small := h.small
  orderly r hr := h.orderly r (List.mem_cons_of_mem p hr)
  states_eq := by
    rw [← List.drop_drop, h.states_eq, layout_cons]
    exact List.drop_left' (Plan.length_states ..)

theorem getElem_states (h : a.Laid base (p :: ps)) (hq : q ∈ p.places) :
    a.states.toList[base + p.index q]? = some (p.state base (exitTo (base + p.size) ps) q) := by
  have hi : p.index q < (p.states base (exitTo (base + p.size) ps)).length := by
    rw [Plan.length_states]
    exact Plan.index_lt_size h.head.numbered hq
  rw [← List.getElem?_drop, h.states_eq, layout_cons, List.getElem?_append_left hi]
  exact Plan.getElem_states h.head.numbered hq ..

/-- No handle of a place wraps around. -/
theorem toNat_stateId (h : a.Laid base (p :: ps)) (hq : q ∈ p.places) :
    (p.stateId base q).toNat = base + p.index q := by
  have hi := (List.getElem?_eq_some_iff.1 (h.getElem_states hq)).1
  rw [Array.length_toList] at hi
  have hs := h.small
  rw [Automaton.size] at hs
  exact UInt32.toNat_ofNat_of_lt' (by omega)

theorem state?_stateId (h : a.Laid base (p :: ps)) (hq : q ∈ p.places) :
    a.state? (p.stateId base q) = some (p.state base (exitTo (base + p.size) ps) q) := by
  rw [Automaton.state?, h.toNat_stateId hq, ← Array.getElem?_toList]
  exact h.getElem_states hq

end Laid
end Automaton

namespace Blueprint.Plan

variable {p : Plan} {q : Place} {base next : Nat}

/-- A place leads on along its edges, or else it completes its plan and another plan follows. -/
theorem within_or_joins (p : Plan) (q : Place) (ps : List Plan) :
    (q ∉ p.ends ∨ ps = []) ∨ q ∈ p.ends ∧ ∃ p' ps', ps = p' :: ps' := by
  by_cases hq : q ∈ p.ends
  · cases ps with
    | nil => exact .inl (.inr rfl)
    | cons p' ps' => exact .inr ⟨hq, p', ps', rfl⟩
  · exact .inl (.inl hq)

/-- The transitions of a state from which no epsilon transition leads on. -/
theorem transitions_state (ps : List Plan) (h : q ∉ p.ends ∨ ps = []) :
    (p.state base (exitTo next ps) q).transitions =
      (p.edges q).map fun (guard, r) => ⟨guard, p.stateId base r⟩ := by
  unfold state
  split
  · next hq =>
    rw [h.resolve_left (not_not_intro hq)]
    rfl
  · rfl

theorem epsilon?_state_eq_none (hp : p.Orderly) (hq : q ∈ p.places) (ps : List Plan)
    (h : q ∉ p.ends ∨ ps = []) : (p.state base (exitTo next ps) q).epsilon? = none := by
  rw [State.epsilon?_eq_none_iff, transitions_state ps h]
  intro t ht
  obtain ⟨e, he, rfl⟩ := List.mem_map.1 ht
  exact hp.guard_ne q hq e he

theorem epsilon?_state_of_mem_ends (h : q ∈ p.ends) (p' : Plan) (ps : List Plan) :
    (p.state base (exitTo next (p' :: ps)) q).epsilon? = some (p'.stateId next .start) := by
  unfold state
  simp only [if_pos h, exitTo, Exit.apply]
  exact State.epsilon?_insert ..

theorem isFinal_state (ps : List Plan) :
    (p.state base (exitTo next ps) q).isFinal = true ↔ q ∈ p.ends ∧ ps = [] := by
  unfold state
  split
  · next hq =>
    cases ps <;> simp [exitTo, Exit.apply, State.insert, hq]
  · next hq => simp [hq]

theorem step?_state (hp : p.Orderly) (hq : q ∈ p.places) (ps : List Plan)
    (h : q ∉ p.ends ∨ ps = []) (card : Card) (id : StateId) :
    (p.state base (exitTo next ps) q).step? card = some id ↔
      ∃ r, p.Step q card r ∧ p.stateId base r = id := by
  rw [State.step?_eq_some_iff_of_agree]
  · rw [transitions_state ps h]
    constructor
    · rintro ⟨t, ht, hf, rfl⟩
      obtain ⟨e, he, rfl⟩ := List.mem_map.1 ht
      exact ⟨e.2, ⟨e.1, he, hf⟩, rfl⟩
    · rintro ⟨r, ⟨guard, he, hf⟩, rfl⟩
      exact ⟨_, List.mem_map.2 ⟨_, he, rfl⟩, hf, rfl⟩
  · rw [transitions_state ps h]
    intro t ht u hu hft hfu
    obtain ⟨e, he, rfl⟩ := List.mem_map.1 ht
    obtain ⟨f, hf, rfl⟩ := List.mem_map.1 hu
    exact congrArg (p.stateId base) (hp.agree q hq e he f hf card hft hfu)

end Blueprint.Plan

namespace Automaton.Laid

variable {a : Automaton} {base : Nat} {p p' : Plan} {ps : List Plan} {q : Place}

theorem isFinal_stateId (h : a.Laid base (p :: ps)) (hq : q ∈ p.places) :
    a.isFinal (p.stateId base q) = true ↔ q ∈ p.ends ∧ ps = [] := by
  rw [isFinal_eq (h.state?_stateId hq), Plan.isFinal_state]

theorem step?_stateId (h : a.Laid base (p :: ps)) (hq : q ∈ p.places)
    (hn : q ∉ p.ends ∨ ps = []) (card : Card) (id : StateId) :
    a.step? (p.stateId base q) card = some id ↔
      ∃ r, p.Step q card r ∧ p.stateId base r = id := by
  rw [step?_of_epsilon?_eq_none (h.state?_stateId hq)
    (Plan.epsilon?_state_eq_none h.head hq ps hn)]
  exact Plan.step?_state h.head hq ps hn card id

/-- No epsilon transition leads on from the start of a group, which needs a card. -/
theorem epsilon?_start (h : a.Laid base (p :: ps)) :
    (p.state base (exitTo (base + p.size) ps) .start).epsilon? = none :=
  Plan.epsilon?_state_eq_none h.head h.head.start_mem ps (.inl h.head.start_not_mem_ends)

/-- A complete group that is not the last one takes cards as the next group does. -/
theorem step?_of_mem_ends (h : a.Laid base (p :: p' :: ps)) (hq : q ∈ p.places)
    (he : q ∈ p.ends) (card : Card) :
    a.step? (p.stateId base q) card = a.step? (p'.stateId (base + p.size) .start) card := by
  have hs := h.tail.state?_stateId h.tail.head.start_mem
  have hn := h.tail.epsilon?_start
  rw [step?, step?, closure?_of_epsilon?_eq_none hs hn,
    closure?_of_epsilon?_eq_some (h.state?_stateId hq)
      (Plan.epsilon?_state_of_mem_ends he p' ps) hs hn]

end Automaton.Laid
end Meld
