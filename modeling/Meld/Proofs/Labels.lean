import Meld.Proofs.Lines
import Meld.Proofs.Tokens
import Meld.Proofs.Vocabulary

namespace Meld

open Text

theorem Text.decimal_inj {n m : Nat} (h : decimal n = decimal m) : n = m := by
  have hn := congrArg numeralValue (String.ofList_injective h)
  rwa [numeralValue_numeral, numeralValue_numeral] at hn

theorem Card.text_inj {c d : Card} (h : c.text = d.text) : c = d := by
  have hd := d.parse_text
  rw [← h, c.parse_text] at hd
  exact Except.ok.inj hd

/-- A number holds no letter. -/
theorem Color.ne_decimal {text : String} (k : Color) (h : k.letter ∈ text.toList) (n : Nat) :
    text ≠ decimal n := by
  rintro rfl
  rw [decimal, String.toList_ofList] at h
  have hd := isDigit_of_mem_numeral h
  revert hd
  cases k <;> decide

namespace Guard

def caption? : Guard → Option String
  | epsilon => none
  | card c => some c.text
  | rank r => some ((r.value?.map decimal).getD "W")
  | color k => some k.letter.toString
  | otherwise => some "*"

def mark (text : String) : String := "[label=\"" ++ text ++ "\"]"

/-- A guard is what a label makes one expect: it fits the card that is named by a letter, or it
tests the rank, the card or the real color that is named. -/
structure Truthful (g : Guard) (text : String) : Prop where
  wild : text = "W" → g.fits Card.wild = true
  skip : text = "S" → g.fits Card.skip = true
  number : ∀ n, text = decimal n → ∃ r, g = .rank r ∧ r.value? = some n
  other : text ≠ "W" → text ≠ "S" → (∀ n, text ≠ decimal n) →
    (∃ c, g = .card c ∧ text = c.text) ∨ ∃ k ∈ Color.real, g = .color k ∧ text = k.letter.toString

variable {g : Guard} {text : String}

theorem label_eq_mark_iff : g.label = mark text ↔ g.caption? = some text := by
  have inj {s : String} : "[label=\"" ++ s ++ "\"]" = mark text ↔ some s = some text := by
    rw [mark, String.append_left_inj, String.append_right_inj, Option.some.injEq]
  cases g with
  | epsilon =>
    refine iff_of_false (fun h => ?_) nofun
    have second := congrArg (fun s => s.toList[1]?) h
    simp [label, mark, String.toList_append] at second
  | card c => exact inj
  | rank r => exact inj
  | color k => exact inj
  | otherwise => exact inj (s := "*")

/-- The text of a card begins with a letter, and so it is no number. -/
theorem truthful_card (c : Card) : Truthful (.card c) c.text where
  wild h := by
    rw [Card.text_inj (d := Card.wild) h]
    rfl
  skip h := by
    rw [Card.text_inj (d := Card.skip) h]
    rfl
  number n h := absurd h (c.color.ne_decimal (by simp [Card.text, Card.chars]) n)
  other _ _ _ := .inl ⟨c, rfl, rfl⟩

theorem truthful_number (step : Fin 12) : Truthful (.rank (.number step)) (decimal (step + 1)) where
  wild h := absurd h.symm (Color.wild.ne_decimal (by decide) _)
  skip h := absurd h.symm (Color.skip.ne_decimal (by decide) _)
  number n h := ⟨.number step, rfl, congrArg some (decimal_inj h)⟩
  other _ _ h := absurd rfl (h (step + 1))

theorem truthful_color (k : Color) : Truthful (.color k) k.letter.toString where
  wild := by cases k <;> decide
  skip := by cases k <;> decide
  number n h := absurd h (k.ne_decimal (by simp [Char.toString]) n)
  other hw hs _ := by
    refine .inr ⟨k, ?_, rfl, rfl⟩
    cases k with
    | wild => exact absurd rfl hw
    | skip => exact absurd rfl hs
    | _ => decide

/-- Two ranks have no number, and the label of both is that of the wild one. -/
theorem truthful_iff (h : g.caption? = some text) (star : text ≠ "*") :
    g.Truthful text ↔ g ≠ .rank .skip := by
  cases g with
  | epsilon => cases h
  | card c =>
    cases h
    exact iff_of_true (truthful_card c) nofun
  | rank r =>
    cases h
    cases r with
    | number step => exact iff_of_true (truthful_number step) (by simp)
    | skip => exact iff_of_false (fun ht => Bool.false_ne_true (ht.wild rfl)) (by simp)
    | wild =>
      refine iff_of_true ⟨fun _ => rfl, by decide, fun n hn => ?_, fun hw => absurd rfl hw⟩ (by simp)
      exact absurd hn (Color.wild.ne_decimal (by decide) n)
  | color k =>
    cases h
    exact iff_of_true (truthful_color k) nofun
  | otherwise =>
    cases h
    exact absurd rfl star

end Guard

namespace Automaton

variable {a : Automaton} {id source target : StateId} {mark text : String} {t : Transition}

/-- The line of a transition tells the two states and what is marked on it. -/
theorem arrowLine_inj {source' target' : StateId} {mark' : String} :
    arrowLine source target mark = arrowLine source' target' mark' ↔
      source = source' ∧ target = target' ∧ mark = mark' := by
  constructor
  · intro h
    have hl := congrArg String.toList h
    rw [toList_arrowLine, toList_arrowLine, List.append_cancel_left_eq] at hl
    obtain ⟨hs, hl⟩ := numeral_append_inj hl
    simp only [List.cons.injEq, true_and] at hl
    obtain ⟨ht, hl⟩ := numeral_append_inj hl
    exact ⟨UInt32.toNat_inj.1 hs, UInt32.toNat_inj.1 ht,
      String.toList_inj.1 (List.append_cancel_right hl)⟩
  · rintro ⟨rfl, rfl, rfl⟩
    rfl

theorem arrowLine_mem_diagramLines (h : a.Sound) :
    arrowLine source target mark ∈ a.diagramLines ↔ a.Reachable source ∧
      ∃ s, a.state? source = some s ∧ ∃ t ∈ s.transitions, edgeLine source t =
        arrowLine source target mark := by
  have reached := (breadthFirst_discover h).mem_iff
  have third : (arrowLine source target mark).toList[2]? = some 'N' := by
    rw [toList_arrowLine]
    rfl
  obtain ⟨head, foot⟩ := a.not_mem_frame third
  rw [diagramLines, List.mem_append, List.mem_append, or_iff_right head, or_iff_left foot,
    List.mem_flatMap]
  constructor
  · rintro ⟨id, hid, hl⟩
    obtain ⟨s, hs⟩ := has_iff.1 (h.has_of_reachable ((reached id).1 hid))
    rw [stateLines_eq hs] at hl
    rcases List.mem_cons.1 hl with hl | hl
    · exact absurd hl.symm (nodeLine_ne_arrowLine target mark)
    · obtain ⟨t, ht, hl⟩ := List.mem_map.1 hl
      obtain ⟨rfl, -, -⟩ := arrowLine_inj.1 hl
      exact ⟨(reached id).1 hid, s, hs, t, ht, hl⟩
  · rintro ⟨hr, s, hs, t, ht, hl⟩
    refine ⟨source, (reached source).2 hr, ?_⟩
    rw [stateLines_eq hs, ← hl]
    exact List.mem_cons_of_mem _ (List.mem_map_of_mem ht)

/-- Each line of this form is drawn for a transition of a state that can be reached. -/
theorem arrowLine_drawn_iff (h : a.Sound) :
    (arrowLine source target mark).toList ∈ a.diagram.toList.splitOn '\n' ↔
      a.Reachable source ∧ ∃ s, a.state? source = some s ∧ ∃ t ∈ s.transitions,
        edgeLine source t = arrowLine source target mark := by
  have some : (arrowLine source target mark).toList ∉ [[]] := by
    rw [toList_arrowLine]
    exact fun hn => absurd (List.mem_singleton.1 hn) nofun
  rw [← arrowLine_mem_diagramLines h, a.splitOn_diagram, List.mem_append, or_iff_left some,
    List.mem_map]
  constructor
  · rintro ⟨line, hl, he⟩
    exact String.toList_inj.1 he ▸ hl
  · exact fun hl => ⟨_, hl, rfl⟩

/-- What a labelled line tells of the transitions that it can be drawn for. -/
theorem truthful_iff_of_drawn (h : a.Sound) (star : text ≠ "*")
    (drawn : (arrowLine source target (Guard.mark text)).toList ∈
      a.diagram.toList.splitOn '\n') :
    ∃ s, a.Reachable source ∧ a.state? source = some s ∧
      (∃ t ∈ s.transitions, edgeLine source t = arrowLine source target (Guard.mark text)) ∧
      ∀ t ∈ s.transitions, edgeLine source t = arrowLine source target (Guard.mark text) →
        t.target = target ∧ (t.guard.Truthful text ↔ t.guard ≠ .rank .skip) := by
  obtain ⟨reached, s, hs, drawn⟩ := (arrowLine_drawn_iff h).1 drawn
  refine ⟨s, reached, hs, drawn, fun t _ hl => ?_⟩
  obtain ⟨-, hto, hm⟩ := arrowLine_inj.1 hl
  exact ⟨hto, Guard.truthful_iff (Guard.label_eq_mark_iff.1 hm) star⟩

/-- A label other than a star tells the truth about each transition that its line can be drawn
for, unless that tests for the rank of skip cards, whose label is that of the wild rank. -/
theorem labels_truthful_iff {bytes : List UInt8} (restored : ofBytes bytes = .ok a) :
    Trusting.draw a = .ok a.diagram ∧
    ∀ source target text, text ≠ "*" →
      (arrowLine source target (Guard.mark text)).toList ∈ a.diagram.toList.splitOn '\n' →
      ∃ s, a.Reachable source ∧ a.state? source = some s ∧
        (∃ t ∈ s.transitions, edgeLine source t = arrowLine source target (Guard.mark text)) ∧
        ∀ t ∈ s.transitions, edgeLine source t = arrowLine source target (Guard.mark text) →
          t.target = target ∧ (t.guard.Truthful text ↔ t.guard ≠ .rank .skip) := by
  have h := sound_of_ofBytes restored
  exact ⟨Trusting.draw_eq h, fun _ _ _ star drawn => truthful_iff_of_drawn h star drawn⟩

/-- By its rank a skip card leads on from the first state, and a wild card from the second one. -/
def lookalikes : Automaton :=
  ⟨.unsized .set, #[⟨false, [⟨.rank .skip, 1⟩]⟩, ⟨true, [⟨.rank .wild, 0⟩]⟩], 0, [1]⟩

theorem lookalikes_restored : ofBytes lookalikes.toBytes = .ok lookalikes := by decide

theorem lookalikes_drawn :
    (arrowLine 0 1 (Guard.mark "W")).toList ∈ lookalikes.diagram.toList.splitOn '\n' ∧
      (arrowLine 1 0 (Guard.mark "W")).toList ∈ lookalikes.diagram.toList.splitOn '\n' := by
  have h := sound_of_ofBytes lookalikes_restored
  have first : lookalikes.Reachable 0 := .start
  have second : lookalikes.Reachable 1 := first.step (by decide)
  rw [arrowLine_drawn_iff h, arrowLine_drawn_iff h]
  exact ⟨⟨first, _, rfl, _, List.mem_cons_self, rfl⟩, ⟨second, _, rfl, _, List.mem_cons_self, rfl⟩⟩

theorem labels_truthful_iff_lookalikes :
    ofBytes lookalikes.toBytes = .ok lookalikes ∧
    ¬(Guard.rank .skip).Truthful "W" ∧ (Guard.rank .wild).Truthful "W" := by
  obtain ⟨-, told⟩ := labels_truthful_iff lookalikes_restored
  obtain ⟨s, -, hs, -, first⟩ := told 0 1 "W" (by decide) lookalikes_drawn.1
  cases hs
  obtain ⟨s, -, hs, -, second⟩ := told 1 0 "W" (by decide) lookalikes_drawn.2
  cases hs
  refine ⟨lookalikes_restored, fun ht => ?_, ?_⟩
  · exact (first ⟨.rank .skip, 1⟩ List.mem_cons_self rfl).2.1 ht rfl
  · exact (second ⟨.rank .wild, 0⟩ List.mem_cons_self rfl).2.2 (by decide)

/-- A line that is labelled as one for wild cards may be drawn for skip cards only. -/
theorem not_truthful_of_drawn : ¬∀ (bytes : List UInt8) (a : Automaton), ofBytes bytes = .ok a →
    ∀ source target text, text ≠ "*" →
      (arrowLine source target (Guard.mark text)).toList ∈ a.diagram.toList.splitOn '\n' →
      ∃ s, a.state? source = some s ∧ ∃ t ∈ s.transitions, t.target = target ∧
        t.guard.Truthful text := by
  intro h
  obtain ⟨s, hs, t, ht, -, truthful⟩ :=
    h _ lookalikes lookalikes_restored 0 1 "W" (by decide) lookalikes_drawn.1
  cases hs
  obtain rfl := List.mem_singleton.1 ht
  exact Bool.false_ne_true (truthful.wild rfl)

/-- No transition of a compiled graph tests for the rank of skip cards, so all its labels tell the
truth. -/
theorem truthful_compile {p : Phase} (h : p.Legal) (small : (compile p).size < UInt32.size)
    (star : text ≠ "*") (drawn : (arrowLine source target (Guard.mark text)).toList ∈
      (compile p).diagram.toList.splitOn '\n') :
    ∃ s, (compile p).state? source = some s ∧ ∃ t ∈ s.transitions, t.target = target ∧
      t.guard.Truthful text := by
  obtain ⟨s, -, hs, ⟨t, ht, line⟩, told⟩ :=
    truthful_iff_of_drawn (wellFormed_compile h small).sound star drawn
  obtain ⟨hto, truthful⟩ := told t ht line
  refine ⟨s, hs, t, ht, hto, truthful.2 fun he => ?_⟩
  have known := guard_mem_compile p (mem_states_of_state? hs) ht
  rw [he] at known
  exact absurd known (by decide)

end Automaton
end Meld
