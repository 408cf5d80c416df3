import Mathlib.Algebra.GroupWithZero.Nat
import Meld.Text.Utf8

namespace Meld.Text

/-- A character that is not complete yet and will be beyond ASCII, whatever bytes follow. -/
structure Pending.Wide (p : Pending) : Prop where
  owed_pos : 0 < p.owed
  low_le : 0x80 ≤ p.low
  wide : 0x80 ≤ (p.value * 64 + (p.low - 0x80)) * 64 ^ (p.owed - 1)

theorem Pending.ofLead?_cases {b : Nat} {p : Pending} (h : ofLead? b = some p) :
    (b < 0x80 ∧ p = ⟨b, 1, 0, 0x80, 0xBF⟩) ∨ p.Wide := by
  unfold ofLead? at h
  split at h
  · next hb => exact .inl ⟨hb, (Option.some.inj h).symm⟩
  right
  split at h
  · contradiction
  split at h
  · obtain rfl := Option.some.inj h
    constructor <;> dsimp only <;> omega
  split at h
  · obtain rfl := Option.some.inj h
    refine ⟨Nat.succ_pos _, ?_, ?_⟩ <;> dsimp only <;> split <;> omega
  split at h
  · obtain rfl := Option.some.inj h
    refine ⟨Nat.succ_pos _, ?_, ?_⟩ <;> dsimp only <;> split <;> omega
  · contradiction

theorem Pending.Wide.next {p q : Pending} {b : Nat} (h : p.Wide) (hq : p.next? b = some q) :
    (q.owed = 0 ∧ 0x80 ≤ q.value) ∨ q.Wide := by
  unfold next? at hq
  split at hq
  · next hb =>
    obtain rfl := Option.some.inj hq
    obtain ⟨owed, low, wide⟩ := h
    have hv : p.value * 64 + (p.low - 0x80) ≤ p.value * 64 + (b - 0x80) := by omega
    have hw := Nat.le_trans wide (Nat.mul_le_mul_right (64 ^ (p.owed - 1)) hv)
    cases ho : p.owed - 1 with
    | zero =>
      rw [ho, Nat.pow_zero, Nat.mul_one] at hw
      exact .inl ⟨rfl, hw⟩
    | succ n =>
      -- the value so far counts for as much as there are bytes to come
      rw [ho, Nat.pow_succ', ← Nat.mul_assoc] at hw
      refine .inr ⟨Nat.succ_pos n, Nat.le_refl _, ?_⟩
      dsimp only
      rwa [Nat.sub_self, Nat.add_zero, Nat.add_sub_cancel]
  · contradiction

theorem toNat_ofNat {n : Nat} (h : n.isValidChar) : (Char.ofNat n).toNat = n := by
  rw [Char.ofNat, dif_pos h]
  rfl

theorem not_ascii_ofNat {n : Nat} (h : 0x80 ≤ n) :
    ¬(0 < (Char.ofNat n).toNat ∧ (Char.ofNat n).toNat < 0x80) := by
  by_cases hv : n.isValidChar
  · rw [toNat_ofNat hv]
    omega
  · -- a number that is no code point gives the character zero
    rw [Char.ofNat, dif_neg hv]
    exact fun hz => Nat.lt_irrefl 0 hz.1

/-- A character that is begun wide and read to its end is not in ASCII. -/
theorem exists_not_ascii_of_decodeFrom {bytes : List UInt8} {start : Nat} {p : Pending}
    {cs : List Char} (hp : p.Wide) (h : decodeFrom start (some p) bytes = .ok cs) :
    ∃ c ∈ cs, ¬(0 < c.toNat ∧ c.toNat < 0x80) := by
  induction bytes generalizing p with
  | nil => cases h
  | cons b bytes ih =>
    simp only [decodeFrom] at h
    split at h
    · contradiction
    · next q hq =>
      rcases hp.next hq with ⟨ho, hv⟩ | hw
      · rw [if_pos ho] at h
        cases hd : decodeFrom (start + q.seen) none bytes with
        | error e => rw [hd] at h; cases h
        | ok ds =>
          rw [hd] at h
          obtain rfl := Except.ok.inj h
          exact ⟨_, List.mem_cons_self, not_ascii_ofNat hv⟩
      · rw [if_neg (Nat.ne_of_gt hw.owed_pos)] at h
        exact ih hw h

/-- Bytes that are read as ASCII characters are the codes of these. -/
theorem eq_of_decodeFrom_ascii {bytes : List UInt8} {start : Nat} {cs : List Char}
    (h : decodeFrom start none bytes = .ok cs) (ascii : ∀ c ∈ cs, 0 < c.toNat ∧ c.toNat < 0x80) :
    bytes = cs.map fun c => UInt8.ofNat c.toNat := by
  induction bytes generalizing start cs with
  | nil =>
    obtain rfl := Except.ok.inj h
    rfl
  | cons b bytes ih =>
    simp only [decodeFrom] at h
    split at h
    · contradiction
    · next p hp =>
      rcases Pending.ofLead?_cases hp with ⟨hb, rfl⟩ | hw
      · rw [if_pos rfl] at h
        cases hd : decodeFrom (start + 1) none bytes with
        | error e => rw [hd] at h; cases h
        | ok ds =>
          rw [hd] at h
          obtain rfl := Except.ok.inj h
          rw [List.forall_mem_cons] at ascii
          have code : (Char.ofNat b.toNat).toNat = b.toNat := toNat_ofNat (.inl (by omega))
          rw [List.map_cons, code, UInt8.ofNat_toNat, ← ih hd ascii.2]
      · rw [if_neg (Nat.ne_of_gt hw.owed_pos)] at h
        obtain ⟨c, hc, hn⟩ := exists_not_ascii_of_decodeFrom hw h
        exact absurd (ascii c hc) hn

end Meld.Text
