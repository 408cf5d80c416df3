import Meld.CommandLine.Answer
import Meld.Proofs.Shortest
import Meld.Proofs.Tokens

namespace Meld

theorem cardsAt_take {hand : List Card} {n : Nat} {l : List Nat}
    (h : ∀ i ∈ l, i < (hand.take n).length) : cardsAt (hand.take n) l = cardsAt hand l := by
  apply List.filterMap_congr
  intro i hi
  have hlt : i < n := Nat.lt_of_lt_of_le (h i hi) (List.length_take_le n hand)
  exact List.getElem?_take_of_lt hlt

namespace CommandLine

open Automaton Card

variable {text : String} {p : Phase} {deck deck' : List String} {hand : List Card}

/-- A phase and cards that can be read are answered. -/
theorem check_of_parsed (parsed : Phase.parse text = .ok p) (hne : deck ≠ [])
    (read : List.Forall₂ (fun token card => parse token = .ok card) (tokens deck) hand)
    (subset : Bool) (path? : Option String) :
    Arguments.check ⟨some text, deck, subset, path?⟩ =
      .ok ⟨if subset then subsetText (compile p) hand else .ok (verdict ((compile p).accepts hand)),
        path?.map fun path => ⟨path, (compile p).diagram⟩⟩ := by
  have ofText : Automaton.ofText text = .ok (compile p) := by rw [Automaton.ofText, parsed]; rfl
  have filled : deck.isEmpty = false := by simpa using hne
  simp only [Arguments.check, filled, ofText, parseHand_eq_ok_iff.2 read, Bool.false_eq_true,
    if_false]

/-- Only the tokens of a deck count. -/
theorem check_congr (hne : deck ≠ []) (hne' : deck' ≠ []) (same : tokens deck' = tokens deck)
    (subset : Bool) (path? : Option String) :
    Arguments.check ⟨some text, deck', subset, path?⟩ =
      Arguments.check ⟨some text, deck, subset, path?⟩ := by
  have filled : deck.isEmpty = false := by simpa using hne
  have filled' : deck'.isEmpty = false := by simpa using hne'
  simp only [Arguments.check, filled, filled', parseHand_intercalate, same]

/-- The line after a positive verdict is the text of cards that are accepted. -/
theorem subsetText_cases {a : Automaton} {found : Option (List Nat)}
    (picked : a.pick? hand = .ok found) :
    (found = none ∧ subsetText a hand = .ok "false\n") ∨
    ∃ l cards, found = some l ∧ subsetText a hand = .ok ("true\n" ++ handText cards ++ "\n") ∧
      cards.Sublist (hand.take handLimit) ∧ a.accepts cards = true := by
  cases found with
  | none => exact .inl ⟨rfl, by rw [subsetText, picked]; rfl⟩
  | some l =>
    have picks := (pick?_eq_some_iff.1 picked).2.1
    -- Positions are found in the cut hand and read in the whole one.
    refine .inr ⟨l, cardsAt hand l, rfl, ?_, ?_, ?_⟩
    · rw [subsetText, picked]
      rfl
    · rw [← cardsAt_take picks.within]
      exact exists_cardsAt_iff.1 ⟨l, ⟨picks.rising, picks.within⟩, rfl⟩
    · rw [← cardsAt_take picks.within]
      exact picks.accepted

theorem line_unique {line line' : String}
    (h : "true\n" ++ line ++ "\n" = "true\n" ++ line' ++ "\n") : line = line' :=
  (String.append_right_inj _).1 ((String.append_left_inj _).1 h)

theorem false_ne_line (line : String) : "false\n" ≠ "true\n" ++ line ++ "\n" := by
  intro h
  have hc := congrArg (fun s => s.toList.head?) h
  simp [String.toList_append] at hc

/-- A call prints whether the cards of the deck are accepted in their order. A search prints
whether some of them are, and those it prints are accepted when they are given as the deck. How the
tokens are spread over the values of the deck makes no difference. -/
theorem check_prints (parsed : Phase.parse text = .ok p)
    (small : (compile p).size < UInt32.size) (hne : deck ≠ [])
    (read : List.Forall₂ (fun token card => parse token = .ok card) (tokens deck) hand)
    (path? : Option String) :
    (Arguments.check ⟨some text, deck, false, path?⟩).map Report.output =
      .ok (.ok (if (compile p).accepts hand then "true\n" else "false\n")) ∧
    (∃ output,
      (Arguments.check ⟨some text, deck, true, path?⟩).map Report.output = .ok (.ok output) ∧
      ((∃ line, output = "true\n" ++ line ++ "\n") ↔
        ∃ cards, cards.Sublist (hand.take handLimit) ∧ (compile p).accepts cards = true) ∧
      ((¬∃ line, output = "true\n" ++ line ++ "\n") → output = "false\n") ∧
      ∀ line, output = "true\n" ++ line ++ "\n" →
        (∃ cards, cards.Sublist (hand.take handLimit) ∧ line = handText cards) ∧
        (Arguments.check ⟨some text, [line], false, path?⟩).map Report.output =
          .ok (.ok "true\n")) ∧
    ∀ deck' subset, deck' ≠ [] → tokens deck' = tokens deck →
      Arguments.check ⟨some text, deck', subset, path?⟩ =
        Arguments.check ⟨some text, deck, subset, path?⟩ := by
  have h := Phase.legal_of_parse parsed
  have checked (subset : Bool) := check_of_parsed parsed hne read subset path?
  obtain ⟨found, picked⟩ := exists_pick?_of_small h small hand
  refine ⟨by rw [checked]; rfl, ?_,
    fun deck' subset hne' same => check_congr hne hne' same subset path?⟩
  rw [← exists_pick?_iff h small, picked, checked]
  -- The two outcomes of the search differ in their text, and so each tells the search apart.
  rcases subsetText_cases picked with ⟨rfl, ht⟩ | ⟨l, cards, rfl, ht, sub, accepted⟩
  · refine ⟨"false\n", congrArg Except.ok ht, ⟨fun hl => ?_, fun hl => ?_⟩, fun _ => rfl,
      fun line hl => ?_⟩
    · exact absurd hl.choose_spec (false_ne_line _)
    · exact absurd hl.choose_spec nofun
    · exact absurd hl (false_ne_line line)
  · refine ⟨_, congrArg Except.ok ht, ⟨fun _ => ⟨l, rfl⟩, fun _ => ⟨_, rfl⟩⟩,
      fun hl => absurd ⟨_, rfl⟩ hl, fun line hl => ?_⟩
    obtain rfl := line_unique hl
    refine ⟨⟨cards, sub, rfl⟩, ?_⟩
    rw [check_of_parsed parsed (List.cons_ne_nil _ _) (forall₂_tokens_handText cards) false path?,
      accepted]
    rfl

/-- A skip card between the cards that are chosen. -/
theorem check_prints_set : ∃ line,
    (Arguments.check ⟨some "S2", ["R5 S", "W"], true, none⟩).map Report.output =
      .ok (.ok ("true\n" ++ line ++ "\n")) ∧
    (Arguments.check ⟨some "S2", [line], false, none⟩).map Report.output = .ok (.ok "true\n") ∧
    Arguments.check ⟨some "S2", [" R5", "", "S\tW"], false, none⟩ =
      Arguments.check ⟨some "S2", ["R5 S", "W"], false, none⟩ := by
  have parsed : Phase.parse "S2" = .ok (.sized [⟨.set, 2⟩]) := by decide
  have small : (compile (.sized [⟨.set, 2⟩])).size < UInt32.size := by decide
  have words : tokens ["R5 S", "W"] = ["R5", "S", "W"] := by decide
  have read : List.Forall₂ (fun token card => parse token = .ok card) (tokens ["R5 S", "W"])
      [⟨.red, .number 4, by decide, by decide⟩, skip, wild] := by
    rw [words]
    exact .cons (by decide) (.cons (by decide) (.cons (by decide) .nil))
  obtain ⟨-, ⟨output, printed, found, -, again⟩, divided⟩ :=
    check_prints parsed small (List.cons_ne_nil _ _) read none
  obtain ⟨line, rfl⟩ := found.2 ⟨[⟨.red, .number 4, by decide, by decide⟩, wild], by decide,
    by decide⟩
  exact ⟨line, printed, (again line rfl).2, divided _ false (by decide) (by decide)⟩

end CommandLine
end Meld
