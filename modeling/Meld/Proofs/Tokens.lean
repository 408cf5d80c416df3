import Meld.Card.Hand
import Meld.Proofs.Legal
import Meld.Proofs.Numerals

namespace Meld

namespace Text

/-- A blank parts the words before it from those after it. -/
theorem words_append_cons {c : Char} (h : isBlank c = true) (xs ys : List Char) :
    words (xs ++ c :: ys) = words xs ++ words ys := by
  rw [words, List.splitOnP_append_cons xs ys h, List.filter_append]
  rfl

/-- Texts that are joined by a blank keep their words. -/
theorem words_intercalate {c : Char} (h : isBlank c = true) (texts : List (List Char)) :
    words ([c].intercalate texts) = texts.flatMap words := by
  induction texts with
  | nil => rfl
  | cons cs texts ih =>
    cases texts with
    | nil => rw [List.intercalate_singleton, List.flatMap_singleton]
    | cons ds texts =>
      rw [List.intercalate_cons_cons, List.append_assoc, List.singleton_append,
        words_append_cons h, ih, ← List.flatMap_cons]

theorem words_eq_singleton {cs : List Char} (hne : cs ≠ []) (h : ∀ c ∈ cs, isBlank c = false) :
    words cs = [cs] := by
  rw [words, List.splitOnP_eq_singleton h]
  simp [hne]

end Text

namespace Card

theorem readRank?_eq_some_iff {digits : List Char} {rank : Rank} : readRank? digits = some rank ↔
    digits.head? ≠ some '0' ∧ rank.value? = some (Text.numeralValue digits) := by
  rw [readRank?, Option.ite_none_left_eq_some, Rank.ofValue?_eq_some_iff]

theorem readRank?_eq_some {digits : List Char} {rank : Rank} (hn : Text.isNumeral digits = true)
    (h : readRank? digits = some rank) : rank.value?.map Text.numeral = some digits := by
  obtain ⟨h0, hv⟩ := readRank?_eq_some_iff.1 h
  rw [hv, Option.map_some, Text.numeral_numeralValue hn h0]

/-- A card has no other text than its own. -/
theorem eq_text_of_parse {token : String} {c : Card} (h : parse token = .ok c) :
    token = c.text := by
  suffices hs : token.toList = c.chars by rw [text, ← hs, String.ofList_toList]
  unfold parse at h
  split at h
  · next ht =>
    obtain rfl := Except.ok.inj h
    exact ht
  · next ht =>
    obtain rfl := Except.ok.inj h
    exact ht
  · next letter digits _ _ ht =>
    rw [ht]
    split at h
    · next hn =>
      split at h
      · contradiction
      · contradiction
      · next color rank hc hr =>
        obtain ⟨rfl, rfl⟩ := make_eq_ok_iff.1 h
        rw [chars, readRank?_eq_some hn hr, (Color.ofLetter?_eq_some_iff.1 hc).2]
        rfl
    · contradiction
  · contradiction

def tokens (texts : List String) : List String :=
  texts.flatMap fun text => (Text.words text.toList).map String.ofList

theorem not_isBlank_of_mem_chars {c : Card} {l : Char} (h : l ∈ c.chars) :
    Text.isBlank l = false := by
  rcases letter_or_isDigit_of_mem_chars h with rfl | h
  · cases c.color <;> decide
  · exact Text.not_isBlank_of_isDigit h

theorem words_handText (cards : List Card) :
    Text.words (handText cards).toList = cards.map chars := by
  have blank : Text.isBlank ' ' = true := by decide
  have one (c : Card) : Text.words c.chars = [c.chars] :=
    Text.words_eq_singleton (List.cons_ne_nil _ _) fun _ => not_isBlank_of_mem_chars
  have texts : (cards.map text).map String.toList = cards.map chars := by
    rw [List.map_map]
    exact List.map_congr_left fun c _ => String.toList_ofList
  rw [handText, String.toList_intercalate, texts]
  refine (Text.words_intercalate blank _).trans ?_
  rw [List.flatMap_map]
  simp only [one]
  exact List.flatMap_pure_eq_map ..

/-- The text of a hand has a token for each card. -/
theorem tokens_handText (cards : List Card) : tokens [handText cards] = cards.map text := by
  rw [tokens, List.flatMap_singleton, words_handText, List.map_map]
  rfl

/-- How tokens are spread over texts makes no difference. -/
theorem parseHand_intercalate (texts : List String) :
    parseHand (" ".intercalate texts) = (tokens texts).mapM parse := by
  have words : Text.words (" ".intercalate texts).toList =
      texts.flatMap fun text => Text.words text.toList := by
    rw [String.toList_intercalate]
    exact (Text.words_intercalate (by decide) _).trans (by rw [List.flatMap_map])
  rw [parseHand, words, tokens, ← List.map_flatMap, List.mapM_map]
  rfl

theorem parseHand_eq_ok_iff {texts : List String} {hand : List Card} :
    parseHand (" ".intercalate texts) = .ok hand ↔
      List.Forall₂ (fun token card => parse token = .ok card) (tokens texts) hand := by
  rw [parseHand_intercalate, mapM_eq_ok_iff]

/-- What is written of a hand is read back. -/
theorem forall₂_tokens_handText (cards : List Card) :
    List.Forall₂ (fun token card => parse token = .ok card) (tokens [handText cards]) cards := by
  rw [tokens_handText, List.forall₂_map_left_iff, List.forall₂_same]
  exact fun c _ => parse_text c

end Card
end Meld
