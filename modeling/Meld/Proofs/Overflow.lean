import Meld.Proofs.Canonical
import Meld.Proofs.Grammar
import Meld.Proofs.Pick

namespace Meld

namespace Snapshot

theorem Form.size_pos (form : Form) : 0 < form.size := by cases form <;> decide

theorem Written.length_bytes_pos (w : Written) : 0 < w.bytes.length := by
  cases w with
  | number form n =>
    rw [bytes, Form.length_write]
    exact form.size_pos
  | byte b => exact Nat.one_pos

theorem Spells.length_pieces_le {pieces : List Piece} {bytes : List UInt8}
    {spelling : List Written} (h : Spells pieces bytes spelling) : pieces.length ≤ bytes.length := by
  obtain ⟨rfl, rfl, -⟩ := h
  rw [List.length_map]
  induction spelling with
  | nil => exact Nat.le_refl 0
  | cons w ws ih =>
    have hw := w.length_bytes_pos
    rw [List.length_cons, List.flatMap_cons, List.length_append]
    omega

/-- No piece is read without a byte. -/
theorem Front.length_pieces_le {pieces : List Piece} {bytes rest : List UInt8}
    (h : Front pieces bytes rest) : pieces.length ≤ bytes.length := by
  obtain ⟨part, spelling, rfl, hs⟩ := h
  have hl := hs.length_pieces_le
  rw [List.length_append]
  omega

theorem length_componentPieces (cs : List Component) :
    (cs.flatMap componentPieces).length = 2 * cs.length := by
  induction cs with
  | nil => rfl
  | cons c cs ih =>
    rw [List.flatMap_cons, List.length_append, ih, List.length_cons, componentPieces,
      List.length_cons, List.length_singleton]
    omega

/-- The components of a phase take two bytes each. -/
theorem length_components_le {bytes rest : List UInt8} {a : Automaton} {cs : List Component}
    (h : read bytes = .ok (a, rest)) (hp : a.phase = .sized cs) :
    2 * cs.length ≤ bytes.length := by
  have hl := (parses_graph h).length_pieces_le
  rw [pieces, hp, phasePieces, listPieces] at hl
  simp only [List.length_append, List.length_cons, length_componentPieces] at hl
  omega

end Snapshot

namespace Phase

theorem minCards_le {cs : List Component} (h : ∀ c ∈ cs, c.InRange) :
    (sized cs).minCards ≤ 108 * cs.length := by
  rw [minCards]
  induction cs with
  | nil => exact Nat.le_refl 0
  | cons c cs ih =>
    have hc := (h c List.mem_cons_self).2
    have hl := c.shape.limit_le
    have hs := ih fun d hd => h d (List.mem_cons_of_mem c hd)
    rw [List.map_cons, List.sum_cons, List.length_cons]
    omega

end Phase

namespace Automaton

variable {a : Automaton}

/-- A search fails when the cards that it asks for are too many for a machine word. The sizes that a
text can give add up to no more than 54 for each byte of a snapshot, but other sizes are read as
well. -/
theorem cardsNeeded_ofBytes {bytes : List UInt8} (restored : ofBytes bytes = .ok a) :
    (∀ hand e, a.search? hand = .error e ↔ UInt64.size ≤ a.phase.minCards) ∧
    (∀ n, a.phase.cardsNeeded = .ok n ↔ n.toNat = a.phase.minCards) ∧
    ((∀ cs, a.phase = .sized cs → ∀ c ∈ cs, c.InRange) →
      a.phase.minCards ≤ 54 * bytes.length ∧
        (bytes.length < 2 ^ 58 → ∃ n, a.phase.cardsNeeded = .ok n ∧
          n.toNat = a.phase.minCards)) := by
  refine ⟨fun _ _ => search?_eq_error_iff, fun _ => Phase.cardsNeeded_eq_ok_iff, fun checked => ?_⟩
  obtain ⟨⟨rest, hr⟩, -⟩ := ofBytes_eq_ok_iff.1 restored
  have bound : a.phase.minCards ≤ 54 * bytes.length := by
    cases hp : a.phase with
    | unsized shape =>
      have hl := (Snapshot.parses_graph hr).length_pieces_le
      rw [Snapshot.pieces, hp, Snapshot.phasePieces] at hl
      simp only [List.length_append, List.length_cons] at hl
      rw [Phase.minCards]
      omega
    | sized cs =>
      have hc := Phase.minCards_le (checked cs hp)
      have hl := Snapshot.length_components_le hr hp
      omega
  refine ⟨bound, fun short => Phase.exists_cardsNeeded_of_lt ?_⟩
  have hs : UInt64.size = 2 ^ 64 := rfl
  omega

/-- Two components of 2 ^ 63 cards, in a graph that accepts any card. -/
def halves : Automaton :=
  ⟨.sized [⟨.set, 9223372036854775808⟩, ⟨.set, 9223372036854775808⟩],
    #[⟨true, [⟨.otherwise, 0⟩]⟩], 0, [0]⟩

theorem halves_restored : ofBytes halves.toBytes = .ok halves := by decide

theorem cardsNeeded_halves : ofBytes halves.toBytes = .ok halves ∧
    halves.phase.minCards = 2 ^ 64 ∧ (∀ n, halves.phase.cardsNeeded ≠ .ok n) ∧
    halves.search? [Card.wild] = .error .overflow := by
  obtain ⟨fails, counts, -⟩ := cardsNeeded_ofBytes halves_restored
  have sum : halves.phase.minCards = 2 ^ 64 := by decide
  refine ⟨halves_restored, sum, fun n => ?_, (fails ..).2 (by decide)⟩
  rw [Ne, counts, sum]
  exact Nat.ne_of_lt n.toNat_lt

/-- Nothing bounds the sum of the sizes in a snapshot. -/
theorem not_cardsNeeded_ofBytes : ¬∀ (bytes : List UInt8) (a : Automaton),
    ofBytes bytes = .ok a → a.phase.minCards < UInt64.size ∧
      ∃ n, a.phase.cardsNeeded = .ok n ∧ n.toNat = a.phase.minCards := by
  intro h
  have small := (h _ halves halves_restored).1
  exact absurd small (by decide)

end Automaton
end Meld
