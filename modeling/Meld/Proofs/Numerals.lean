import Meld.Text.Numeral

namespace Meld.Text

theorem isNumeral_iff {cs : List Char} :
    isNumeral cs = true ↔ cs ≠ [] ∧ ∀ c ∈ cs, c.isDigit = true := by
  simp [isNumeral]

theorem isNumeral_numeral (n : Nat) : isNumeral (numeral n) = true :=
  isNumeral_iff.2 ⟨Nat.toDigits_ne_nil, fun _ => isDigit_of_mem_numeral⟩

theorem numeral_toNat_sub {c : Char} (h : c.isDigit = true) :
    numeral (c.toNat - '0'.toNat) = [c] := by
  have one : ∀ d : Fin 10, numeral d = [Char.ofNat (48 + d)] := by decide
  obtain ⟨low, high⟩ := toNat_of_isDigit h
  have hd : c.toNat - 48 < 10 := by omega
  have hc : 48 + (c.toNat - 48) = c.toNat := by omega
  have := one ⟨c.toNat - 48, hd⟩
  rwa [hc, Char.ofNat_toNat] at this

/-- Digits after a number that is not zero are written behind it. -/
theorem numeral_ofDigitChars {cs : List Char} (h : ∀ c ∈ cs, c.isDigit = true) {n : Nat}
    (hn : 0 < n) : numeral (Nat.ofDigitChars 10 cs n) = numeral n ++ cs := by
  induction cs generalizing n with
  | nil => exact (List.append_nil _).symm
  | cons c cs ih =>
    have hc := h c List.mem_cons_self
    have hd : c.toNat - '0'.toNat < 10 := by
      have := (toNat_of_isDigit hc).2
      change c.toNat - 48 < 10
      omega
    have ht := ih (fun d hd => h d (List.mem_cons_of_mem c hd))
      (n := 10 * n + (c.toNat - '0'.toNat)) (by omega)
    rw [Nat.ofDigitChars_cons, ht, numeral, ← Nat.toDigits_append_toDigits (by decide) hn hd,
      ← numeral, ← numeral, numeral_toNat_sub hc, List.append_assoc, List.singleton_append]

/-- A numeral without leading zeros is the only one of its value. -/
theorem numeral_numeralValue {cs : List Char} (h : isNumeral cs = true)
    (h0 : cs.head? ≠ some '0') : numeral (numeralValue cs) = cs := by
  obtain ⟨hne, hd⟩ := isNumeral_iff.1 h
  cases cs with
  | nil => contradiction
  | cons c cs =>
    have hc := hd c List.mem_cons_self
    have hne : c.toNat ≠ '0'.toNat := fun he => h0 (congrArg some (Char.toNat_inj.1 he))
    have pos : 0 < c.toNat - '0'.toNat := by
      have := (toNat_of_isDigit hc).1
      change c.toNat ≠ 48 at hne
      change 0 < c.toNat - 48
      omega
    rw [numeralValue, Nat.ofDigitChars_cons, Nat.mul_zero, Nat.zero_add,
      numeral_ofDigitChars (fun d hd' => hd d (List.mem_cons_of_mem c hd')) pos,
      numeral_toNat_sub hc, List.singleton_append]

/-- Zeros in front do not count. -/
theorem numeralValue_dropWhile (cs : List Char) :
    numeralValue (cs.dropWhile (· = '0')) = numeralValue cs := by
  induction cs with
  | nil => rfl
  | cons c cs ih =>
    by_cases hc : c = '0'
    · subst hc
      exact ih
    · rw [List.dropWhile_cons_of_neg (by simpa using hc)]

/-- A number other than zero is written as any numeral of it without the zeros in front. -/
theorem numeral_numeralValue_of_pos {cs : List Char} (h : isNumeral cs = true)
    (pos : 0 < numeralValue cs) : numeral (numeralValue cs) = cs.dropWhile (· = '0') := by
  rw [← numeralValue_dropWhile] at pos ⊢
  obtain ⟨-, hd⟩ := isNumeral_iff.1 h
  have some : cs.dropWhile (· = '0') ≠ [] := by
    intro hn
    rw [hn] at pos
    contradiction
  apply numeral_numeralValue
  · exact isNumeral_iff.2 ⟨some, fun d hd' => hd d ((List.dropWhile_sublist _).subset hd')⟩
  · intro h0
    have hn := List.head?_dropWhile_not (· = '0') cs
    rw [h0] at hn
    contradiction

end Meld.Text
