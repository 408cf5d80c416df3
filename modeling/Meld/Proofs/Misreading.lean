import Meld.Proofs.Tokens

namespace Meld

theorem Color.exists_ofLetter?_iff {letter : Char} :
    (∃ color, ofLetter? letter = some color) ↔ letter ∈ ['R', 'B', 'G', 'Y'] := by
  simp only [ofLetter?_eq_some_iff]
  exact (List.mem_map (f := Color.letter) (l := real)).symm

namespace Card

variable {token : String} {letter letter' : Char} {digits : List Char} {color : Color} {rank : Rank}
  {e e' : Card.Error}

def Lettered (token : String) (letter : Char) : Prop :=
  ∃ digits, token.toList = letter :: digits ∧ digits ≠ [] ∧ ∀ d ∈ digits, d.isDigit = true

/-- What is wrong with a token that is no card's. Only its form and its first character decide. -/
inductive Fault (token : String) : Card.Error → Prop where
  | malformed : (∀ letter, ¬Lettered token letter) → Fault token (.malformed token)
  | unknownColor {letter : Char} : Lettered token letter → letter ∉ ['R', 'B', 'G', 'Y'] →
      Fault token (.unknownColor token)
  | unknownRank {letter : Char} : Lettered token letter → letter ∈ ['R', 'B', 'G', 'Y'] →
      Fault token (.unknownRank token)

theorem Lettered.unique (h : Lettered token letter) (h' : Lettered token letter') :
    letter = letter' := by
  obtain ⟨digits, ht, -⟩ := h
  obtain ⟨digits', ht', -⟩ := h'
  exact (List.cons.inj (ht.symm.trans ht')).1

theorem Fault.unique (h : Fault token e) (h' : Fault token e') : e = e' := by
  rcases h with hl | ⟨hl, hm⟩ | ⟨hl, hm⟩ <;> rcases h' with hl' | ⟨hl', hm'⟩ | ⟨hl', hm'⟩
  · rfl
  · exact absurd hl' (hl _)
  · exact absurd hl' (hl _)
  · exact absurd hl (hl' _)
  · rfl
  · exact absurd (hl.unique hl' ▸ hm') hm
  · exact absurd hl (hl' _)
  · exact absurd (hl.unique hl' ▸ hm) hm'
  · rfl

/-- The letter of a real color and a number from one to twelve do not disagree. -/
theorem exists_make (hc : Color.ofLetter? letter = some color) (hr : readRank? digits = some rank) :
    ∃ c, make color rank = .ok c := by
  have real := (Color.ofLetter?_eq_some_iff.1 hc).1
  have hv := (readRank?_eq_some_iff.1 hr).2
  have colors : ∀ k ∈ Color.real, k ≠ .wild ∧ k ≠ .skip := by decide
  have ranks : rank ≠ .wild ∧ rank ≠ .skip := by
    constructor <;> rintro rfl <;> cases hv
  obtain ⟨hw, hs⟩ := colors color real
  exact ⟨⟨color, rank, iff_of_false hw ranks.1, iff_of_false hs ranks.2⟩,
    make_eq_ok_iff.2 ⟨rfl, rfl⟩⟩

theorem fault_of_parse (h : parse token = .error e) : Fault token e := by
  unfold parse at h
  split at h
  · contradiction
  · contradiction
  · next letter digits _ _ ht =>
    split at h
    · next hn =>
      have hl : Lettered token letter := ⟨digits, ht, Text.isNumeral_iff.1 hn⟩
      split at h
      · next hc =>
        cases h
        exact .unknownColor hl (mt Color.exists_ofLetter?_iff.2 (by simp [hc]))
      · next color hc hr =>
        cases h
        exact .unknownRank hl (Color.exists_ofLetter?_iff.1 ⟨color, hc⟩)
      · next color rank hc hr =>
        obtain ⟨c, hm⟩ := exists_make hc hr
        cases hm.symm.trans h
    · next hn =>
      cases h
      refine .malformed ?_
      rintro letter' ⟨digits', ht', hd⟩
      obtain ⟨rfl, rfl⟩ := List.cons.inj (ht.symm.trans ht')
      exact hn (Text.isNumeral_iff.2 hd)
  · next ht =>
    cases h
    refine .malformed ?_
    rintro letter' ⟨digits', ht', -⟩
    exact List.cons_ne_nil _ _ (ht'.symm.trans ht)

/-- The text of a card is the only token that is read as that card. Any other token is reported
itself, for its form, else for its color, else for its rank. -/
theorem parse_classifies (token : String) :
    (∀ c, parse token = .ok c ↔ token = c.text) ∧
    ∀ e, parse token = .error e ↔ (∀ c : Card, token ≠ c.text) ∧ Fault token e := by
  constructor
  · refine fun c => ⟨eq_text_of_parse, ?_⟩
    rintro rfl
    exact parse_text c
  · refine fun e => ⟨fun h => ⟨?_, fault_of_parse h⟩, ?_⟩
    · rintro c rfl
      cases (parse_text c).symm.trans h
    · rintro ⟨hn, hf⟩
      cases hp : parse token with
      | ok c => exact absurd (eq_text_of_parse hp) (hn c)
      | error e' => rw [(fault_of_parse hp).unique hf]

example : parse "W12" = .error (.unknownColor "W12") := by decide

end Card
end Meld
