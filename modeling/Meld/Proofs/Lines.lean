import Meld.Proofs.Discovery
import Meld.Proofs.Grammar
import Meld.Proofs.WellFormed

namespace Meld

open Blueprint

theorem intercalate_concat_nil {α : Type} (x : α) (parts : List (List α)) :
    [x].intercalate (parts ++ [[]]) = parts.flatMap (· ++ [x]) := by
  induction parts with
  | nil => rfl
  | cons part parts ih =>
    rw [List.cons_append, List.intercalate_cons_of_ne_nil (by simp), ih, List.flatMap_cons]

theorem exists_mem_of_mem_intercalate {α : Type} {x y : α} {parts : List (List α)}
    (h : y ∈ [x].intercalate parts) : y = x ∨ ∃ part ∈ parts, y ∈ part := by
  induction parts with
  | nil => exact absurd h List.not_mem_nil
  | cons part parts ih =>
    by_cases hp : parts = []
    · subst hp
      rw [List.intercalate_singleton] at h
      exact .inr ⟨part, List.mem_cons_self, h⟩
    · rw [List.intercalate_cons_of_ne_nil hp, List.mem_append, List.mem_append,
        List.mem_singleton] at h
      rcases h with (h | h) | h
      · exact .inr ⟨part, List.mem_cons_self, h⟩
      · exact .inl h
      · rcases ih h with h | ⟨q, hq, h⟩
        · exact .inl h
        · exact .inr ⟨q, List.mem_cons_of_mem part hq, h⟩

namespace Text

def OneLine (text : String) : Prop := '\n' ∉ text.toList

instance (text : String) : Decidable (OneLine text) := inferInstanceAs (Decidable (¬_))

theorem oneLine_append {s t : String} : OneLine (s ++ t) ↔ OneLine s ∧ OneLine t := by
  simp [OneLine]

theorem oneLine_of_isDigit {cs : List Char} (h : ∀ c ∈ cs, c.isDigit = true) :
    OneLine (String.ofList cs) := by
  intro hn
  rw [String.toList_ofList] at hn
  exact absurd (h _ hn) (by decide)

theorem oneLine_decimal (n : Nat) : OneLine (decimal n) :=
  oneLine_of_isDigit fun _ => isDigit_of_mem_numeral

/-- A text in which each line is ended by a break is split into its lines, and nothing is left
behind the last break. -/
theorem splitOn_join {lines : List String} (h : ∀ line ∈ lines, OneLine line) :
    (String.join (lines.map (· ++ "\n"))).toList.splitOn '\n' =
      lines.map String.toList ++ [[]] := by
  rw [splitOn_eq_iff]
  refine ⟨by simp, ?_, ?_⟩
  · rw [intercalate_concat_nil, String.toList_join, List.flatMap_map, List.flatMap_map]
    simp only [String.toList_append]
    rfl
  · simp only [List.mem_append, List.mem_map, List.mem_singleton]
    rintro part (⟨line, hl, rfl⟩ | rfl)
    · exact h line hl
    · exact List.not_mem_nil

/-- A numeral ends where a blank follows. -/
theorem numeral_append_inj {n m : Nat} {r r' : List Char}
    (h : numeral n ++ ' ' :: r = numeral m ++ ' ' :: r') : n = m ∧ r = r' := by
  have digits (n : Nat) (r : List Char) :
      (numeral n ++ ' ' :: r).takeWhile Char.isDigit = numeral n := by
    rw [List.takeWhile_append_of_pos fun _ => isDigit_of_mem_numeral]
    exact List.append_nil _
  have hn : numeral n = numeral m := by rw [← digits n r, h, digits]
  obtain rfl : n = m := by rw [← numeralValue_numeral n, hn, numeralValue_numeral]
  exact ⟨rfl, (List.cons.inj (List.append_cancel_left h)).2⟩

end Text

open Text

theorem Card.oneLine_text (c : Card) : OneLine c.text := by
  intro hn
  rw [Card.text, String.toList_ofList] at hn
  rcases Card.letter_or_isDigit_of_mem_chars hn with h | h
  · cases hc : c.color <;> rw [hc] at h <;> exact absurd h (by decide)
  · exact absurd h (by decide)

theorem Component.newline_not_mem_chars (c : Component) : '\n' ∉ c.chars := by
  rw [Component.chars, List.mem_cons, not_or]
  refine ⟨by cases c.shape <;> decide, fun hn => ?_⟩
  exact absurd (isDigit_of_mem_numeral hn) (by decide)

theorem Phase.oneLine_text (p : Phase) : OneLine p.text := by
  intro hn
  rw [Phase.text, String.toList_ofList] at hn
  cases p with
  | unsized shape => cases shape <;> exact absurd hn (by decide)
  | sized components =>
    rcases exists_mem_of_mem_intercalate hn with h | ⟨part, hp, h⟩
    · exact absurd h (by decide)
    · obtain ⟨c, -, rfl⟩ := List.mem_map.1 hp
      exact c.newline_not_mem_chars h

theorem Guard.oneLine_label (g : Guard) : OneLine g.label := by
  cases g with
  | epsilon => decide
  | card c => simp only [label, oneLine_append, c.oneLine_text, and_true]; decide
  | rank r =>
    simp only [label, oneLine_append]
    refine ⟨⟨by decide, ?_⟩, by decide⟩
    cases r.value? with
    | none => decide
    | some v => exact oneLine_decimal v
  | color k => cases k <;> decide
  | otherwise => decide

namespace Automaton

variable {a : Automaton} {id id' : StateId} {p : Phase} {order : List StateId}

theorem oneLine_nodeLine (a : Automaton) (id : StateId) : OneLine (a.nodeLine id) := by
  have style : OneLine (a.nodeStyle id) := by
    unfold nodeStyle
    split
    · decide
    · split <;> decide
  simp only [nodeLine, nodeName, oneLine_append, oneLine_decimal, style, and_true]
  decide

theorem oneLine_edgeLine (id : StateId) (t : Transition) : OneLine (edgeLine id t) := by
  simp only [edgeLine, nodeName, oneLine_append, oneLine_decimal, Guard.oneLine_label, and_true]
  decide

theorem mem_stateLines {line : String} (h : line ∈ a.stateLines id) :
    line = a.nodeLine id ∨ ∃ t, line = edgeLine id t := by
  rcases List.mem_cons.1 h with h | h
  · exact .inl h
  · obtain ⟨t, -, rfl⟩ := List.mem_map.1 h
    exact .inr ⟨t, rfl⟩

theorem oneLine_of_mem_diagramLines {line : String} (h : line ∈ a.diagramLines) :
    OneLine line := by
  simp only [diagramLines, List.mem_append, List.mem_cons, List.not_mem_nil, or_false,
    List.mem_flatMap] at h
  rcases h with ((rfl | rfl) | ⟨id, -, h⟩) | rfl
  · decide
  · simp only [oneLine_append, a.phase.oneLine_text, and_true]
    decide
  · rcases mem_stateLines h with rfl | ⟨t, rfl⟩
    · exact a.oneLine_nodeLine id
    · exact oneLine_edgeLine id t
  · decide

theorem splitOn_diagram (a : Automaton) :
    a.diagram.toList.splitOn '\n' = a.diagramLines.map String.toList ++ [[]] :=
  splitOn_join fun _ => oneLine_of_mem_diagramLines

theorem exists_toList_nodeStyle (a : Automaton) (id : StateId) :
    ∃ rest, (a.nodeStyle id).toList = '[' :: rest := by
  unfold nodeStyle
  split
  · exact ⟨_, rfl⟩
  · split <;> exact ⟨_, rfl⟩

/-- The lines of a state begin with its number, and what follows tells their kind. -/
theorem exists_toList_nodeLine (a : Automaton) (id : StateId) : ∃ rest,
    (a.nodeLine id).toList = [' ', ' ', 'N'] ++ (numeral id.toNat ++ ' ' :: '[' :: rest) := by
  obtain ⟨rest, hr⟩ := a.exists_toList_nodeStyle id
  refine ⟨rest ++ [';'], ?_⟩
  simp only [nodeLine, nodeName, decimal, String.toList_append, String.toList_ofList, hr,
    List.append_assoc]
  rfl

def arrowLine (source target : StateId) (mark : String) : String :=
  "  " ++ nodeName source ++ " -> " ++ nodeName target ++ " " ++ mark ++ ";"

theorem toList_arrowLine (source target : StateId) (mark : String) :
    (arrowLine source target mark).toList =
      [' ', ' ', 'N'] ++ (numeral source.toNat ++ ' ' :: '-' :: '>' :: ' ' :: 'N' ::
        (numeral target.toNat ++ ' ' :: (mark.toList ++ [';']))) := by
  simp only [arrowLine, nodeName, decimal, String.toList_append, String.toList_ofList,
    List.append_assoc]
  rfl

theorem nodeLine_inj (h : a.nodeLine id = a.nodeLine id') : id = id' := by
  obtain ⟨rest, hr⟩ := a.exists_toList_nodeLine id
  obtain ⟨rest', hr'⟩ := a.exists_toList_nodeLine id'
  rw [h, hr', List.append_cancel_left_eq] at hr
  exact UInt32.toNat_inj.1 (numeral_append_inj hr).1.symm

theorem nodeLine_ne_arrowLine (target : StateId) (mark : String) :
    a.nodeLine id ≠ arrowLine id' target mark := by
  intro h
  obtain ⟨rest, hr⟩ := a.exists_toList_nodeLine id
  rw [h, toList_arrowLine, List.append_cancel_left_eq] at hr
  exact absurd (List.cons.inj (numeral_append_inj hr).2).1 (by decide)

/-- The third character of the line of a state or a transition is that of no line around them. -/
theorem not_mem_frame (a : Automaton) {line : String} (third : line.toList[2]? = some 'N') :
    line ∉ ["digraph phase \x7b", "  label=\"" ++ a.phase.text ++ "\";"] ∧ line ∉ ["\x7d"] := by
  simp only [List.mem_cons, List.not_mem_nil, or_false, not_or]
  refine ⟨⟨?_, ?_⟩, ?_⟩
  · rintro rfl
    exact absurd third (by decide)
  · rintro rfl
    rw [String.toList_append, String.toList_append] at third
    exact absurd third (by decide : some 'l' ≠ some 'N')
  · rintro rfl
    exact absurd third (by decide)

theorem count_stateLines (a : Automaton) (id id' : StateId) :
    (a.stateLines id').count (a.nodeLine id) = if id' = id then 1 else 0 := by
  rw [stateLines, List.count_cons, List.count_eq_zero.2, Nat.zero_add]
  · by_cases h : id' = id
    · simp [h]
    · simp [h, mt nodeLine_inj h]
  · intro h
    obtain ⟨t, -, ht⟩ := List.mem_map.1 h
    exact nodeLine_ne_arrowLine t.target t.guard.label ht.symm

theorem count_flatMap_stateLines (a : Automaton) (id : StateId) (order : List StateId) :
    (order.flatMap a.stateLines).count (a.nodeLine id) = order.count id := by
  induction order with
  | nil => rfl
  | cons id' order ih =>
    rw [List.flatMap_cons, List.count_append, ih, count_stateLines, List.count_cons, Nat.add_comm]
    simp

/-- A state has as many node lines as it is discovered times. -/
theorem count_diagramLines (a : Automaton) (id : StateId) :
    a.diagramLines.count (a.nodeLine id) = a.discover.count id := by
  obtain ⟨rest, hr⟩ := a.exists_toList_nodeLine id
  have third : (a.nodeLine id).toList[2]? = some 'N' := by
    rw [hr]
    rfl
  obtain ⟨head, foot⟩ := a.not_mem_frame third
  rw [diagramLines, List.count_append, List.count_append, count_flatMap_stateLines,
    List.count_eq_zero.2 head, List.count_eq_zero.2 foot, Nat.zero_add, Nat.add_zero]

theorem length_eq_size (small : a.size < UInt32.size) (nodup : order.Nodup)
    (mem_iff : ∀ id, id ∈ order ↔ a.has id = true) : order.length = a.size := by
  have same : (order.map UInt32.toNat).Perm (List.range a.size) := by
    have nodup_map := nodup.map fun _ _ => UInt32.toNat_inj.1
    rw [List.perm_ext_iff_of_nodup nodup_map List.nodup_range]
    intro i
    rw [List.mem_map, List.mem_range]
    constructor
    · rintro ⟨id, hid, rfl⟩
      exact of_decide_eq_true ((mem_iff id).1 hid)
    · intro hi
      have hn : (UInt32.ofNat i).toNat = i := UInt32.toNat_ofNat_of_lt' (Nat.lt_trans hi small)
      refine ⟨UInt32.ofNat i, (mem_iff _).2 (decide_eq_true ?_), hn⟩
      rwa [hn]
  have hl := same.length_eq
  rwa [List.length_map, List.length_range] at hl

theorem Sound.has_of_reachable (h : a.Sound) (hr : a.Reachable id) : a.has id = true := by
  cases hr with
  | start => exact h.start
  | step _ hn => exact h.has_of_mem_targets hn

/-- On a sound graph a drawing comes to an end. Its lines are those around the states and, in the
breadth-first order of all states that can be reached, the line of each followed by those of its
transitions. A compiled graph is drawn as a whole. -/
theorem diagram_lists_reachable :
    (∀ a : Automaton, a.checkSound = .ok () → ∃ order, a.BreadthFirst order ∧
      Trusting.draw a = .ok a.diagram ∧
      a.diagram.toList.splitOn '\n' = a.diagramLines.map String.toList ++ [[]] ∧
      a.diagramLines = ["digraph phase \x7b", "  label=\"" ++ a.phase.text ++ "\";"] ++
        order.flatMap a.stateLines ++ ["\x7d"] ∧
      (∀ id ∈ order, ∃ s, a.state? id = some s ∧
        a.stateLines id = a.nodeLine id :: s.transitions.map (edgeLine id)) ∧
      (∀ id, a.Reachable id → a.diagramLines.count (a.nodeLine id) = 1) ∧
      ∀ id, ¬a.Reachable id → a.nodeLine id ∉ a.diagramLines) ∧
    ∀ text p, Phase.parse text = .ok p → (compile p).size < UInt32.size →
      (compile p).checkSound = .ok () ∧ ∀ order, (compile p).BreadthFirst order →
        (∀ id, id ∈ order ↔ (compile p).has id = true) ∧ order.length = (compile p).size := by
  refine ⟨fun a sound => ?_, fun text p parsed small => ?_⟩
  · have h := checkSound_eq_ok_iff.1 sound
    have first := breadthFirst_discover h
    refine ⟨a.discover, first, Trusting.draw_eq h, a.splitOn_diagram, rfl, fun id hid => ?_,
      fun id hr => ?_, fun id hr => ?_⟩
    · obtain ⟨s, hs⟩ := has_iff.1 (h.has_of_reachable ((first.mem_iff id).1 hid))
      exact ⟨s, hs, stateLines_eq hs⟩
    · rw [count_diagramLines]
      exact List.count_eq_one_of_mem first.nodup ((first.mem_iff id).2 hr)
    · rw [← List.count_eq_zero, count_diagramLines, List.count_eq_zero]
      exact mt (first.mem_iff id).1 hr
  · have formed := wellFormed_compile (Phase.legal_of_parse parsed) small
    refine ⟨checkSound_eq_ok_iff.2 formed.sound, fun order first => ?_⟩
    have mem_iff (id : StateId) : id ∈ order ↔ (compile p).has id = true :=
      (first.mem_iff id).trans ⟨formed.sound.has_of_reachable, formed.reachable id⟩
    exact ⟨mem_iff, length_eq_size small first.nodup mem_iff⟩

/-- Two transitions lead from the start to the final state and one leads back, and the state
between these is never reached. -/
def bypass : Automaton :=
  ⟨.unsized .set, #[⟨false, [⟨.rank .wild, 2⟩, ⟨.otherwise, 2⟩]⟩, ⟨false, [⟨.otherwise, 0⟩]⟩,
    ⟨true, [⟨.otherwise, 0⟩]⟩], 0, [2]⟩

theorem bypass_breadthFirst : bypass.BreadthFirst [0, 2] where
  nodup := by decide
  mem_iff id := by
    have forth : bypass.targets 0 = [2, 2] := rfl
    have back : bypass.targets 2 = [0] := rfl
    rw [List.mem_pair]
    constructor
    · rintro (rfl | rfl)
      · exact .start
      · exact .step .start (forth ▸ List.mem_cons_self)
    · intro h
      induction h with
      | start => exact .inl rfl
      | step _ hn ih =>
        rcases ih with rfl | rfl
        · exact .inr (by simpa [forth] using hn)
        · exact .inl (by simpa [back] using hn)
  first_met := by decide
  nearest_first := List.pairwise_pair.2 fun count _ => ⟨0, Nat.zero_le count, .start⟩

/-- The state that is not reached is left out, and of a compiled graph none of its 39 states is. -/
theorem diagram_lists_reachable_bypass :
    bypass.checkSound = .ok () ∧
    bypass.diagramLines = ["digraph phase \x7b", "  label=\"S\";",
      "  N0 [label=\"\", shape=box, color=blue];", "  N0 -> N2 [label=\"W\"];",
      "  N0 -> N2 [label=\"*\"];", "  N2 [label=\"\", shape=diamond, color=green];",
      "  N2 -> N0 [label=\"*\"];", "\x7d"] ∧
    Phase.parse "S1+R2" = .ok (.sized [⟨.set, 1⟩, ⟨.run, 2⟩]) ∧
    (compile (.sized [⟨.set, 1⟩, ⟨.run, 2⟩])).size < UInt32.size ∧
    ∃ order, (compile (.sized [⟨.set, 1⟩, ⟨.run, 2⟩])).BreadthFirst order ∧
      order.length = 39 := by
  have sound : bypass.checkSound = .ok () := by decide
  have parsed : Phase.parse "S1+R2" = .ok (.sized [⟨.set, 1⟩, ⟨.run, 2⟩]) := by decide
  have small : (compile (.sized [⟨.set, 1⟩, ⟨.run, 2⟩])).size < UInt32.size := by decide
  obtain ⟨drawn, compiled⟩ := diagram_lists_reachable
  obtain ⟨order, first, -, -, lines, -⟩ := drawn bypass sound
  obtain rfl := first.unique bypass_breadthFirst
  obtain ⟨sound', all⟩ := compiled _ _ parsed small
  obtain ⟨order, first, -⟩ := drawn _ sound'
  exact ⟨sound, lines.trans (by decide), parsed, small, order, first, (all order first).2⟩

end Automaton
end Meld
