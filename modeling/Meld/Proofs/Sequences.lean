import Meld.Proofs.Spread

namespace Meld.Card

variable {text : String} {cards : List Card} {e : Card.Error}

theorem solid_chars (c : Card) : Text.Solid c.chars :=
  ⟨List.cons_ne_nil _ _, fun _ => not_isBlank_of_mem_chars⟩

/-- A text is read as cards just when it is made of the texts of these cards. -/
theorem parseHand_eq_ok_iff_spread :
    parseHand text = .ok cards ↔ Text.Spread (cards.map chars) text.toList := by
  rw [parseHand, mapM_eq_ok_iff]
  constructor
  · intro h
    have words : Text.words text.toList = cards.map chars := by
      rw [← List.forall₂_eq_eq_eq, List.forall₂_map_right_iff]
      refine h.imp fun word c hc => ?_
      exact String.ofList_injective (eq_text_of_parse hc)
    exact (Text.words_eq_iff.1 words).1
  · intro h
    have solid : ∀ word ∈ cards.map chars, Text.Solid word :=
      List.forall_mem_map.2 fun c _ => solid_chars c
    rw [h.words_eq solid, List.forall₂_map_left_iff, List.forall₂_same]
    exact fun c _ => parse_text c

/-- Texts on the two sides of a gap are read one after the other. -/
theorem parseHand_append {gap : String} (hne : gap ≠ "")
    (blank : ∀ c ∈ gap.toList, Text.isBlank c = true) (a b : String) :
    parseHand (a ++ gap ++ b) = do return (← parseHand a) ++ (← parseHand b) := by
  have some : gap.toList ≠ [] := mt String.toList_eq_nil_iff.1 hne
  simp only [parseHand, String.toList_append, Text.words_append_gap_append some blank,
    List.mapM_append]

/-- Words that are cards stand before the one that is reported. -/
theorem parseHand_eq_error_iff : parseHand text = .error e ↔ ∃ good token rest,
    Text.Spread (good ++ token :: rest) text.toList ∧
    (∀ word ∈ good ++ token :: rest, Text.Solid word) ∧
    (∀ word ∈ good, ∃ c, parse (String.ofList word) = .ok c) ∧
    parse (String.ofList token) = .error e := by
  simp only [parseHand, mapM_eq_error_iff, Text.words_eq_iff, and_assoc]

/-- A text is read as some cards just when theirs are its words, in their order and with blanks
between them. What stands on the two sides of a gap is read one after the other, and of the words
that are no cards the leftmost is reported. -/
theorem parseHand_decides :
    (∀ text cards, parseHand text = .ok cards ↔
      Text.Spread (cards.map chars) text.toList) ∧
    (∀ a gap b, gap ≠ "" → (∀ c ∈ gap.toList, Text.isBlank c = true) →
      parseHand (a ++ gap ++ b) = do return (← parseHand a) ++ (← parseHand b)) ∧
    ∀ text e, parseHand text = .error e ↔ ∃ good token rest,
      Text.Spread (good ++ token :: rest) text.toList ∧
      (∀ word ∈ good ++ token :: rest, Text.Solid word) ∧
      (∀ word ∈ good, ∃ c, parse (String.ofList word) = .ok c) ∧
      parse (String.ofList token) = .error e :=
  ⟨fun _ _ => parseHand_eq_ok_iff_spread, fun a _ b hne blank => parseHand_append hne blank a b,
    fun _ _ => parseHand_eq_error_iff⟩

/-- Blanks that are no ASCII characters, and two words that are no cards. -/
theorem parseHand_decides_gap :
    parseHand "\u3000R5\u2003\tW" = .ok [⟨.red, .number 4, by decide, by decide⟩, wild] ∧
    parseHand ("W R05" ++ "\u00a0" ++ "X") = .error (.unknownRank "R05") := by
  obtain ⟨ok_iff, append, -⟩ := parseHand_decides
  constructor
  · refine (ok_iff _ _).2 ?_
    have last : Text.Spread [['W']] ['\t', 'W'] :=
      @Text.Spread.last ['\t'] ['W'] (List.all_eq_true.1 (by decide))
    exact @Text.Spread.cons ['\u3000'] ['R', '5'] _ '\u2003' _ (List.all_eq_true.1 (by decide))
      (by decide) last
  · have refused : parseHand "W R05" = .error (.unknownRank "R05") := by decide
    rw [append _ _ _ (by decide) (List.all_eq_true.1 (by decide)), refused]
    rfl

end Meld.Card
