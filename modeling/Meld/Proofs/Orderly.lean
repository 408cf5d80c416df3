import Meld.Proofs.Resolution
import Meld.Blueprint.Plan

namespace Meld.Blueprint

def Place.taken : Place → Nat
  | start => 0
  | wilds pos => pos + 1
  | lane _ pos => pos + 1

def Place.Undecided : Place → Prop
  | lane _ _ => False
  | _ => True

theorem Place.exists_lane_of_not_undecided {q : Place} (h : ¬q.Undecided) :
    ∃ key pos, q = .lane key pos := by
  cases q with
  | start => exact absurd trivial h
  | wilds pos => exact absurd trivial h
  | lane key pos => exact ⟨key, pos, rfl⟩

namespace Plan

def need (p : Plan) : Nat := ((p.ends.map Place.taken).min?).getD 0

def missing (p : Plan) (q : Place) : Nat := p.need - q.taken

def Step (p : Plan) (q : Place) (card : Card) (r : Place) : Prop :=
  ∃ guard, (guard, r) ∈ p.edges q ∧ guard.fits card = true

/-- The cards lead from a place to others of the group, whether or not they complete it. -/
def Takes (p : Plan) : Place → List Card → Prop
  | _, [] => True
  | q, card :: cards => ∃ r, p.Step q card r ∧ p.Takes r cards

/-- A plan in which a card leads to one place at most, and always one card closer to completion.
Once a group is complete it remains so, and until then it can take a wild card. -/
structure Orderly (p : Plan) : Prop where
  numbered : p.Numbered
  start_mem : .start ∈ p.places
  index_start : p.index .start = 0
  target_mem : ∀ q ∈ p.places, ∀ e ∈ p.edges q, e.2 ∈ p.places
  guard_ne : ∀ q ∈ p.places, ∀ e ∈ p.edges q, e.1 ≠ .epsilon
  agree : ∀ q ∈ p.places, ∀ e ∈ p.edges q, ∀ f ∈ p.edges q, ∀ card,
    e.1.fits card = true → f.1.fits card = true → e.2 = f.2
  need_pos : 0 < p.need
  mem_ends : ∀ q ∈ p.places, q ∈ p.ends ↔ p.missing q = 0
  missing_edge : ∀ q ∈ p.places, ∀ e ∈ p.edges q, p.missing e.2 = p.missing q - 1
  wild_step : ∀ q ∈ p.places, q ∉ p.ends → ∃ r, p.Step q Card.wild r

namespace Orderly

variable {p : Plan} {q r : Place} {card : Card}

theorem step_mem (h : p.Orderly) (hq : q ∈ p.places) (hs : p.Step q card r) : r ∈ p.places := by
  obtain ⟨guard, he, -⟩ := hs
  exact h.target_mem q hq _ he

theorem missing_step (h : p.Orderly) (hq : q ∈ p.places) (hs : p.Step q card r) :
    p.missing r = p.missing q - 1 := by
  obtain ⟨guard, he, -⟩ := hs
  exact h.missing_edge q hq _ he

theorem start_not_mem_ends (h : p.Orderly) : .start ∉ p.ends := by
  rw [h.mem_ends _ h.start_mem]
  exact Nat.ne_of_gt h.need_pos

end Orderly

theorem index_lt_size {p : Plan} {q : Place} (h : p.Numbered) (hq : q ∈ p.places) :
    p.index q < p.size := (List.getElem?_eq_some_iff.1 (h q hq)).1

theorem getElem_states {p : Plan} {q : Place} (h : p.Numbered) (hq : q ∈ p.places) (base : Nat)
    (exit : Exit) : (p.states base exit)[p.index q]? = some (p.state base exit q) := by
  rw [states, List.getElem?_map, h q hq, Option.map_some]

/-- A plan that has the places of an orderly one, with the same edges, gives the same states. -/
theorem states_congr {p p' : Plan} (h : p'.Orderly) (places : p.places = p'.places)
    (ends : p.ends = p'.ends) (index : ∀ q ∈ p'.places, p.index q = p'.index q)
    (edges : ∀ q ∈ p'.places, p.edges q = p'.edges q) (base : Nat) (exit : Exit) :
    p.states base exit = p'.states base exit := by
  unfold states
  rw [places]
  apply List.map_congr_left
  intro q hq
  have he : (p.edges q).map (fun e => (⟨e.1, p.stateId base e.2⟩ : Transition)) =
      (p'.edges q).map fun e => ⟨e.1, p'.stateId base e.2⟩ := by
    rw [edges q hq]
    apply List.map_congr_left
    intro e hm
    simp only [stateId, index e.2 (h.target_mem q hq e hm)]
  unfold state
  simp only [ends, he]

end Plan
end Meld.Blueprint
