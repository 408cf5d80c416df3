import Meld.Snapshot.Format

namespace Meld.Snapshot

/-- How a number may be written: as one byte, or as two, four or eight bytes after one that tells
which. -/
inductive Form where
  | one
  | two
  | four
  | eight
  deriving DecidableEq

namespace Form

def limit : Form → Nat
  | one => 251
  | two => UInt16.size
  | four => UInt32.size
  | eight => UInt64.size

def size : Form → Nat
  | one => 1
  | two => 3
  | four => 5
  | eight => 9

def write : Form → Nat → List UInt8
  | one, n => [UInt8.ofNat n]
  | two, n => 251 :: littleEndian 2 n
  | four, n => 252 :: littleEndian 4 n
  | eight, n => 253 :: littleEndian 8 n

def least (n : Nat) : Form :=
  if n < 251 then one else if n < UInt16.size then two else if n < UInt32.size then four else eight

variable {form : Form} {n : Nat}

theorem length_write (form : Form) (n : Nat) : (form.write n).length = form.size := by
  cases form <;> simp only [write, size, List.length_cons, List.length_nil, length_littleEndian]

theorem limit_le (form : Form) : form.limit ≤ UInt64.size := by cases form <;> decide

theorem size_least_le (h : n < form.limit) : (least n).size ≤ form.size := by
  cases form with
  | one => exact Nat.le_of_eq (congrArg size (if_pos h))
  | two =>
    unfold least
    split
    · decide
    · exact Nat.le_of_eq (congrArg size (if_pos h))
  | four =>
    unfold least
    split
    · decide
    split
    · decide
    · exact Nat.le_of_eq (congrArg size (if_pos h))
  | eight => cases least n <;> decide

theorem size_injective {form form' : Form} (h : form.size = form'.size) : form = form' := by
  cases form <;> cases form' <;> first | rfl | contradiction

theorem lt_limit_least (h : n < UInt64.size) : n < (least n).limit := by
  unfold least
  split
  · assumption
  split
  · assumption
  split
  · assumption
  · exact h

theorem write_least (n : Nat) : (least n).write n = writeInteger n := by
  unfold least writeInteger
  split
  · rfl
  split
  · rfl
  split <;> rfl

end Form

inductive Piece where
  | number (n : Nat)
  | byte (b : UInt8)

def Piece.write : Piece → List UInt8
  | number n => writeInteger n
  | byte b => [b]

inductive Written where
  | number (form : Form) (n : Nat)
  | byte (b : UInt8)

namespace Written

def piece : Written → Piece
  | number _ n => .number n
  | byte b => .byte b

def bytes : Written → List UInt8
  | number form n => form.write n
  | byte b => [b]

def Fits : Written → Prop
  | number form n => n < form.limit
  | byte _ => True

/-- A number would fit a shorter form as well. -/
def Overlong : Written → Prop
  | number form n => ∃ short : Form, n < short.limit ∧ short.size < form.size
  | byte _ => False

variable {w : Written}

theorem overlong_number_iff {form : Form} {n : Nat} (h : n < form.limit) :
    (number form n).Overlong ↔ form ≠ .least n := by
  constructor
  · rintro ⟨short, hs, hlt⟩ rfl
    exact absurd (Form.size_least_le hs) (Nat.not_le_of_lt hlt)
  · intro hne
    have hn : n < UInt64.size := Nat.lt_of_lt_of_le h form.limit_le
    refine ⟨.least n, Form.lt_limit_least hn, Nat.lt_of_le_of_ne (Form.size_least_le h) ?_⟩
    exact fun he => hne (Form.size_injective he.symm)

theorem write_piece_of_not_overlong (h : w.Fits) (hw : ¬w.Overlong) : w.piece.write = w.bytes := by
  cases w with
  | number form n =>
    have hf : form = .least n := Decidable.not_not.1 (mt (overlong_number_iff h).2 hw)
    rw [bytes, hf, Form.write_least]
    rfl
  | byte b => rfl

theorem length_write_piece_lt (h : w.Fits) (hw : w.Overlong) :
    w.piece.write.length < w.bytes.length := by
  cases w with
  | number form n =>
    obtain ⟨short, hs, hlt⟩ := hw
    change (writeInteger n).length < (form.write n).length
    rw [← Form.write_least, Form.length_write, Form.length_write]
    exact Nat.lt_of_le_of_lt (Form.size_least_le hs) hlt
  | byte b => exact hw.elim

theorem length_write_piece_le (h : w.Fits) : w.piece.write.length ≤ w.bytes.length := by
  by_cases hw : w.Overlong
  · exact Nat.le_of_lt (length_write_piece_lt h hw)
  · exact Nat.le_of_eq (congrArg List.length (write_piece_of_not_overlong h hw))

end Written

/-- The pieces are written one after the other, each number in a form that can hold it. -/
structure Spells (pieces : List Piece) (bytes : List UInt8) (spelling : List Written) : Prop where
  pieces_eq : spelling.map Written.piece = pieces
  bytes_eq : spelling.flatMap Written.bytes = bytes
  fits : ∀ w ∈ spelling, w.Fits

namespace Spells

variable {pieces : List Piece} {bytes : List UInt8} {spelling : List Written}

theorem nil : Spells [] [] [] := ⟨rfl, rfl, nofun⟩

theorem append {pieces' : List Piece} {bytes' : List UInt8} {spelling' : List Written}
    (h : Spells pieces bytes spelling) (h' : Spells pieces' bytes' spelling') :
    Spells (pieces ++ pieces') (bytes ++ bytes') (spelling ++ spelling') where
  pieces_eq := by rw [List.map_append, h.pieces_eq, h'.pieces_eq]
  bytes_eq := by rw [List.flatMap_append, h.bytes_eq, h'.bytes_eq]
  fits w hw := (List.mem_append.1 hw).elim (h.fits w) (h'.fits w)

theorem lt_size (h : Spells pieces bytes spelling) {n : Nat} (hn : .number n ∈ pieces) :
    n < UInt64.size := by
  rw [← h.pieces_eq] at hn
  obtain ⟨w, hw, he⟩ := List.mem_map.1 hn
  cases w with
  | number form m =>
    obtain rfl : m = n := Piece.number.inj he
    exact Nat.lt_of_lt_of_le (h.fits _ hw) form.limit_le
  | byte b => cases he

theorem length_le (h : Spells pieces bytes spelling) :
    (pieces.flatMap Piece.write).length ≤ bytes.length := by
  obtain ⟨rfl, rfl, fits⟩ := h
  induction spelling with
  | nil => exact Nat.le_refl 0
  | cons w ws ih =>
    have hw := Written.length_write_piece_le (fits w List.mem_cons_self)
    have hs := ih fun v hv => fits v (List.mem_cons_of_mem w hv)
    simp only [List.map_cons, List.flatMap_cons, List.length_append]
    omega

/-- Pieces are written as by default if no number is longer than need be. -/
theorem write_eq_iff (h : Spells pieces bytes spelling) :
    pieces.flatMap Piece.write = bytes ↔ ∀ w ∈ spelling, ¬w.Overlong := by
  obtain ⟨rfl, rfl, fits⟩ := h
  induction spelling with
  | nil => exact iff_of_true rfl nofun
  | cons w ws ih =>
    have hw := fits w List.mem_cons_self
    have rest : ∀ v ∈ ws, v.Fits := fun v hv => fits v (List.mem_cons_of_mem w hv)
    rw [List.map_cons, List.flatMap_cons, List.flatMap_cons, List.forall_mem_cons, ← ih rest]
    constructor
    · intro he
      -- what comes after cannot make up for a number that is too long
      have hl := congrArg List.length he
      rw [List.length_append, List.length_append] at hl
      have hs := length_le ⟨rfl, rfl, rest⟩
      have tight : ¬w.Overlong := fun ho => by
        have := Written.length_write_piece_lt hw ho
        omega
      rw [Written.write_piece_of_not_overlong hw tight] at he
      exact ⟨tight, List.append_cancel_left he⟩
    · rintro ⟨tight, he⟩
      rw [Written.write_piece_of_not_overlong hw tight, he]

end Spells
end Meld.Snapshot
