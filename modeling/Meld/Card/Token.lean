import Meld.Card.Basic
import Meld.Text.Numeral

namespace Meld.Card

/-- A card is written as its color's letter, which a numbered card follows by its value. -/
def chars (c : Card) : List Char :=
  c.color.letter :: (c.rank.value?.map Text.numeral).getD []

def text (c : Card) : String := String.ofList c.chars

/-- The value of a rank is written without leading zeros. -/
def readRank? (digits : List Char) : Option Rank :=
  if digits.head? = some '0' then none else Rank.ofValue? (Text.numeralValue digits)

/-- A token of the wrong form is refused before an unknown color, and that before an unknown
rank. -/
def parse (token : String) : Except Card.Error Card :=
  match token.toList with
  | ['W'] => .ok wild
  | ['S'] => .ok skip
  | letter :: digits =>
    if Text.isNumeral digits then
      match Color.ofLetter? letter, readRank? digits with
      | none, _ => .error (.unknownColor token)
      | some _, none => .error (.unknownRank token)
      | some color, some rank => make color rank
    else .error (.malformed token)
  | [] => .error (.malformed token)

theorem readRank?_numeral (step : Fin 12) : Text.isNumeral (Text.numeral (step + 1)) = true ∧
    readRank? (Text.numeral (step + 1)) = some (.number step) := by
  revert step
  decide

theorem parse_ofList_cons {letter : Char} {digits : List Char} (h : Text.isNumeral digits = true)
    {color : Color} {rank : Rank} (hc : Color.ofLetter? letter = some color)
    (hr : readRank? digits = some rank) :
    parse (String.ofList (letter :: digits)) = make color rank := by
  have not_nil (l : Char) : String.toList (String.ofList (letter :: digits)) ≠ [l] := by
    rw [String.toList_ofList]
    rintro ⟨⟩
    contradiction
  unfold parse
  split
  · next hl => exact absurd hl (not_nil _)
  · next hl => exact absurd hl (not_nil _)
  · next hl =>
    rw [String.toList_ofList] at hl
    obtain ⟨rfl, rfl⟩ := List.cons.inj hl
    simp only [h, if_true, hc, hr]
  · next hl =>
    rw [String.toList_ofList] at hl
    contradiction

theorem parse_text (c : Card) : parse c.text = .ok c := by
  cases hr : c.rank with
  | number step =>
    obtain ⟨hn, hs⟩ := readRank?_numeral step
    have real : c.color ∈ Color.real := by
      have hw := mt c.wild_iff.1 (by simp [hr])
      have hs := mt c.skip_iff.1 (by simp [hr])
      cases hc : c.color <;> simp_all [Color.real]
    have hl := Color.ofLetter?_eq_some_iff.2 ⟨real, rfl⟩
    rw [text, chars, hr]
    exact (parse_ofList_cons hn hl hs).trans (make_eq_ok_iff.2 ⟨rfl, hr⟩)
  | skip =>
    rw [isSkip_iff.1 (decide_eq_true hr)]
    rfl
  | wild =>
    rw [isWild_iff.1 (decide_eq_true hr)]
    rfl

/-- The text of a card is made of the letter of its color and of digits. -/
theorem letter_or_isDigit_of_mem_chars {c : Card} {l : Char} (h : l ∈ c.chars) :
    l = c.color.letter ∨ l.isDigit = true := by
  rcases List.mem_cons.1 h with rfl | h
  · exact .inl rfl
  · cases hv : c.rank.value? with
    | none => simp [hv] at h
    | some v =>
      rw [hv] at h
      exact .inr (Text.isDigit_of_mem_numeral h)

theorem toNat_of_mem_chars {c : Card} {l : Char} (h : l ∈ c.chars) :
    0 < l.toNat ∧ l.toNat < 0x80 := by
  rcases letter_or_isDigit_of_mem_chars h with rfl | h
  · cases c.color <;> decide
  · have := Text.toNat_of_isDigit h
    omega

theorem length_chars_le (c : Card) : c.chars.length ≤ 3 := by
  cases hr : c.rank with
  | number step =>
    have hl : ∀ step : Fin 12, (Text.numeral (step + 1)).length ≤ 2 := by decide
    rw [chars, hr]
    exact Nat.succ_le_succ (hl step)
  | skip => simp [chars, hr, Rank.value?]
  | wild => simp [chars, hr, Rank.value?]

end Meld.Card
