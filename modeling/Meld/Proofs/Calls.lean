import Meld.CommandLine.Answer
import Meld.Proofs.Options
import Meld.Proofs.Pick
import Meld.Proofs.Tokens

namespace Meld.CommandLine

open Automaton

variable {a : Arguments} {report : Report}

/-- Nothing is reported unless the phase and all cards can be read, and only a phase of too many cards
to count makes a search fail. -/
theorem exists_of_check (h : a.check = .ok report) : ∃ text p hand, a.phase? = some text ∧
    Phase.parse text = .ok p ∧ Card.parseHand (" ".intercalate a.deck) = .ok hand ∧
      (∀ e, report.output = .error e → UInt64.size ≤ p.minCards) ∧
      report.file? = a.diagram?.map fun path => ⟨path, (compile p).diagram⟩ := by
  unfold Arguments.check at h
  split at h
  · contradiction
  · next text ht =>
    split at h
    · contradiction
    · split at h
      · contradiction
      · next graph hg =>
        split at h
        · contradiction
        · next hand hh =>
          obtain ⟨p, hp, rfl⟩ := map_eq_ok_iff.1 hg
          obtain rfl := Except.ok.inj h
          refine ⟨text, p, hand, ht, hp, hh, fun e he => ?_, rfl⟩
          dsimp only at he
          split at he
          · exact pick?_eq_error_iff.1 (map_eq_error_iff.1 he)
          · contradiction

/-- A call is refused, or shows the help, or reports on a phase and a deck. -/
theorem answer_cases (texts : List String) : (∃ reason, answer texts = .refuse reason) ∨
    answer texts = ⟨0, help, "", none⟩ ∨ answer texts = ⟨0, help ++ "\n", "", none⟩ ∨
    ∃ a report, Request.parse texts = .ok (.check a) ∧ a.check = .ok report ∧
      ((∃ output, answer texts = ⟨0, output, "", report.file?⟩) ∨
        ∃ e, report.output = .error e ∧
          answer texts = ⟨101, "", e.message ++ "\n", report.file?⟩) := by
  unfold answer
  split
  · exact .inr (.inr (.inl rfl))
  · split
    · exact .inl ⟨_, rfl⟩
    · exact .inr (.inl rfl)
    · next a hr =>
      split
      · exact .inl ⟨_, rfl⟩
      · next report hc =>
        refine .inr (.inr (.inr ⟨a, report, hr, hc, ?_⟩))
        split
        · next e he => exact .inr ⟨e, he, rfl⟩
        · exact .inl ⟨_, rfl⟩

theorem file?_eq_none_iff {p : Phase}
    (h : report.file? = a.diagram?.map fun path => ⟨path, (compile p).diagram⟩) :
    report.file? = none ↔ a.values .diagram = [] := by
  rw [h, Option.map_eq_none_iff, Arguments.values, Option.toList_eq_nil_iff]

/-- A call that fails prints nothing but the error, and writes no file. One that succeeds had a
phase and cards that can be read, unless it shows the help, and the diagram of the phase is written
just when it was asked for. There is no other end than these two, but for a phase that asks for more
cards than can be counted. -/
theorem answer_clean (texts : List String) :
    ((answer texts).exitCode = 0 ∨ (answer texts).exitCode = 1 ∨
      (answer texts).exitCode = 101 ∧ ∃ text p, given .phase texts = [text] ∧
        Phase.parse text = .ok p ∧ UInt64.size ≤ p.minCards) ∧
    ((answer texts).exitCode = 1 → (answer texts).output = "" ∧
      (∃ reason, (answer texts).error = "Error: " ++ reason) ∧ (answer texts).file? = none) ∧
    ((answer texts).exitCode = 0 → (answer texts).output ∉ [help, help ++ "\n"] →
      ∃ text p, given .phase texts = [text] ∧ Phase.parse text = .ok p ∧
        (∀ token ∈ Card.tokens (given .deck texts), ∃ card, Card.parse token = .ok card) ∧
        ((answer texts).file? ≠ none ↔
          ∃ word ∈ texts, word = "--dot" ∨ ∃ value, word = "--dot=" ++ value) ∧
        ∀ file, (answer texts).file? = some file →
          given .diagram texts = [file.path] ∧ file.content = (compile p).diagram) := by
  rcases answer_cases texts with ⟨reason, he⟩ | he | he | ⟨a, report, hr, hc, ends⟩
  · rw [he]
    refine ⟨.inr (.inl rfl), fun _ => ⟨rfl, ⟨reason.message ++ "\n", ?_⟩, rfl⟩,
      fun ended => absurd ended Nat.one_ne_zero⟩
    rw [Answer.refuse, String.append_assoc]
  · rw [he]
    refine ⟨.inl rfl, fun ended => absurd ended Nat.zero_ne_one, fun _ shown => absurd ?_ shown⟩
    exact List.mem_cons_self
  · rw [he]
    refine ⟨.inl rfl, fun ended => absurd ended Nat.zero_ne_one, fun _ shown => absurd ?_ shown⟩
    exact List.mem_cons_of_mem _ List.mem_cons_self
  -- What the check was asked is what the texts give to each option.
  · obtain ⟨text, p, hand, ht, hp, hh, uncounted, hf⟩ := exists_of_check hc
    have phase : given .phase texts = [text] := by
      rw [← (values_parse hr .phase).1, Arguments.values, ht]
      rfl
    have deck := (values_parse hr .deck).1
    obtain ⟨diagram, named⟩ := values_parse hr .diagram
    rcases ends with ⟨output, he⟩ | ⟨e, failed, he⟩
    · rw [he]
      refine ⟨.inl rfl, fun ended => absurd ended Nat.zero_ne_one,
        fun _ _ => ⟨text, p, phase, hp, ?_, ?_, fun file hw => ?_⟩⟩
      · intro token hm
        rw [← deck, Arguments.values] at hm
        have read := (Card.parseHand_eq_ok_iff.1 hh).flip
        obtain ⟨card, -, hcard⟩ := exists_mem_of_forall₂ read hm
        exact ⟨card, hcard⟩
      · simp only [names_diagram_iff] at named
        rw [← named, Ne, file?_eq_none_iff hf]
      · change report.file? = some file at hw
        rw [hf] at hw
        obtain ⟨path, hd, rfl⟩ := Option.map_eq_some_iff.1 hw
        refine ⟨?_, rfl⟩
        rw [← diagram, Arguments.values, hd]
        rfl
    · rw [he]
      refine ⟨.inr (.inr ⟨rfl, text, p, phase, hp, uncounted e failed⟩), fun ended => ?_,
        fun ended => ?_⟩
      · exact absurd ended (by decide : (101 : Nat) ≠ 1)
      · exact absurd ended (by decide : (101 : Nat) ≠ 0)

/-- The options may come in any order, and a bad card stops the diagram from being written. -/
theorem answer_writes_diagram :
    (answer ["-d", "R5 W", "B5", "--dot=set.gv", "-pS03"]).file? =
      some ⟨"set.gv", (compile (.sized [⟨.set, 3⟩])).diagram⟩ ∧
    (answer ["-d", "R5 W", "B13", "--dot=set.gv", "-pS03"]).file? = none := by
  obtain ⟨-, -, clean⟩ := answer_clean ["-d", "R5 W", "B5", "--dot=set.gv", "-pS03"]
  obtain ⟨text, p, ht, hp, -, written, content⟩ := clean (by decide) (by decide)
  obtain ⟨-, refused, -⟩ := answer_clean ["-d", "R5 W", "B13", "--dot=set.gv", "-pS03"]
  refine ⟨?_, (refused (by decide)).2.2⟩
  obtain ⟨file, hf⟩ := Option.ne_none_iff_exists'.1
    (written.2 ⟨"--dot=set.gv", by decide, .inr ⟨"set.gv", by decide⟩⟩)
  obtain ⟨path, hc⟩ := content file hf
  have phase : given .phase ["-d", "R5 W", "B5", "--dot=set.gv", "-pS03"] = ["S03"] := by decide
  have diagram : given .diagram ["-d", "R5 W", "B5", "--dot=set.gv", "-pS03"] = ["set.gv"] := by
    decide
  have parsed : Phase.parse "S03" = .ok (.sized [⟨.set, 3⟩]) := by decide
  obtain rfl := List.singleton_inj.1 (phase.symm.trans ht)
  obtain rfl := Except.ok.inj (parsed.symm.trans hp)
  rw [hf, ← hc, List.singleton_inj.1 (diagram.symm.trans path)]

end Meld.CommandLine
