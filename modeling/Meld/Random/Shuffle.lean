import Meld.Random.Keystream

namespace Meld.Random

/-- The largest low half at which a scaled word still counts, so that every value below `range`
comes from equally many words. -/
def zone (range : Nat) : Nat := (range <<< (31 - range.log2)) - 1

/-- The first of `fuel` words from `place` on that counts, scaled to at most `top`, and the place
after it. If none of them counts the draw has not ended, and the zero that it gives stands for no
word. -/
def drawFrom (source : Nat → UInt32) (top : Nat) : Nat → Nat → Fin (top + 1) × Nat
  | 0, place => (0, place)
  | fuel + 1, place =>
    let scaled := (source place).toNat * (top + 1)
    if scaled % UInt32.size ≤ zone (top + 1) then
      (⟨scaled / UInt32.size, Nat.div_lt_of_lt_mul
        (Nat.mul_lt_mul_of_pos_right (source place).toNat_lt top.succ_pos)⟩, place + 1)
    else drawFrom source top fuel (place + 1)

/-- A uniform draw from 0 to `top`. A keystream repeats after this many words, so that a draw which
has not ended by then never would. -/
def draw (source : Nat → UInt32) (top place : Nat) : Fin (top + 1) × Nat :=
  drawFrom source top (16 * UInt64.size) place

/-- Every position from `i` down to 1 trades places with a drawn one that is not above it. -/
def shuffleBelow {α : Type} {n : Nat} (source : Nat → UInt32) :
    (i : Nat) → i < n → Nat → Vector α n → Vector α n
  | 0, _, _, v => v
  | i + 1, h, place, v =>
    let (j, place) := draw source (i + 1) place
    shuffleBelow source i (by omega) place (v.swap (i + 1) j h (by omega))

def shuffle {α : Type} (source : Nat → UInt32) (xs : List α) : List α :=
  if h : 0 < xs.length then
    let v : Vector α xs.length := ⟨xs.toArray, by simp⟩
    (shuffleBelow source (xs.length - 1) (by omega) 0 v).toList
  else []

theorem shuffleBelow_perm {α : Type} {n : Nat} (source : Nat → UInt32) (i : Nat) (h : i < n)
    (place : Nat) (v : Vector α n) : (shuffleBelow source i h place v).Perm v := by
  induction i generalizing place v with
  | zero => exact .refl _
  | succ i ih => exact (ih ..).trans (Vector.swap_perm ..)

theorem shuffle_perm {α : Type} (source : Nat → UInt32) (xs : List α) :
    (shuffle source xs).Perm xs := by
  unfold shuffle
  split
  · exact Vector.perm_iff_toList_perm.1 (shuffleBelow_perm ..)
  · next h =>
    rw [List.eq_nil_of_length_eq_zero (by omega : xs.length = 0)]

end Meld.Random
