import Mathlib.Data.List.TakeWhile
import Meld.CommandLine.Arguments
import Meld.Proofs.Legal

namespace Meld.CommandLine

def Word.option? : Word → Option (Slot × Option String)
  | long "phase" value? => some (.phase, value?)
  | long "deck" value? => some (.deck, value?)
  | long "dot" value? => some (.diagram, value?)
  | short 'p' rest => some (.phase, attached? rest)
  | short 'd' rest => some (.deck, attached? rest)
  | _ => none

def Names (slot : Slot) (text : String) : Prop :=
  ∃ value?, (Word.ofText text).option? = some (slot, value?)

def isValue (text : String) : Bool :=
  match Word.ofText text with
  | .plain _ => true
  | _ => false

/-- The values of an option that a word names: the one attached to it, or all that follow the
word. -/
def Word.values (w : Word) (slot : Slot) (rest : List String) : List String :=
  match w.option? with
  | some (named, some value) => if named = slot then [value] else []
  | some (named, none) => if named = slot then rest.takeWhile isValue else []
  | none => []

def given (slot : Slot) : List String → List String
  | [] => []
  | text :: texts => (Word.ofText text).values slot texts ++ given slot texts

def Arguments.values (a : Arguments) : Slot → List String
  | .phase => a.phase?.toList
  | .deck => a.deck
  | .diagram => a.diagram?.toList

def Intake.values (i : Intake) (slot : Slot) (texts : List String) : List String :=
  i.arguments.values slot ++
    match i.waiting? with
    | some w => if w.slot = slot then w.values ++ texts.takeWhile isValue else []
    | none => []

def Waiting.Fits (w : Waiting) : Prop := w.slot = .deck ∨ w.values.length ≤ 1

def Intake.Fits (i : Intake) : Prop := ∀ w, i.waiting? = some w → w.Fits

variable {a b : Arguments} {i j : Intake} {w : Word} {slot s : Slot} {text : String}
  {texts vs : List String}

/-- The deck takes all values that it is given, and any other option the first of them, once. -/
theorem give_cases (h : a.give s vs = .ok b) : ∃ v rest, vs = v :: rest ∧
    ((s = .deck ∧ b = { a with deck := a.deck ++ vs }) ∨
      (s = .phase ∧ a.phase? = none ∧ b = { a with phase? := some v }) ∨
      (s = .diagram ∧ a.diagram? = none ∧ b = { a with diagram? := some v })) := by
  unfold Arguments.give at h
  split at h
  · contradiction
  · next hne =>
    obtain ⟨v, rest, rfl⟩ := List.exists_cons_of_ne_nil hne
    exact ⟨v, rest, rfl, .inl ⟨rfl, (Except.ok.inj h).symm⟩⟩
  · next v rest =>
    split at h
    · contradiction
    · next hn =>
      have free : a.phase? = none := by simpa using hn
      exact ⟨v, rest, rfl, .inr (.inl ⟨rfl, free, (Except.ok.inj h).symm⟩)⟩
  · next v rest =>
    split at h
    · contradiction
    · next hn =>
      have free : a.diagram? = none := by simpa using hn
      split at h
      · contradiction
      · exact ⟨v, rest, rfl, .inr (.inr ⟨rfl, free, (Except.ok.inj h).symm⟩)⟩

theorem give_ne_nil (h : a.give s vs = .ok b) : vs ≠ [] := by
  obtain ⟨v, rest, rfl, -⟩ := give_cases h
  exact List.cons_ne_nil v rest

theorem values_give (h : a.give s vs = .ok b) (hf : s = .deck ∨ vs.length ≤ 1) (slot : Slot) :
    b.values slot = a.values slot ++ if s = slot then vs else [] := by
  obtain ⟨v, rest, rfl, ⟨rfl, rfl⟩ | ⟨rfl, free, rfl⟩ | ⟨rfl, free, rfl⟩⟩ := give_cases h
  · cases slot <;> simp [Arguments.values]
  · obtain rfl : rest = [] := by simpa using hf
    cases slot <;> simp [Arguments.values, free]
  · obtain rfl : rest = [] := by simpa using hf
    cases slot <;> simp [Arguments.values, free]

theorem eq_of_ofText_eq_plain {t : String} (h : Word.ofText text = .plain t) : t = text := by
  unfold Word.ofText at h
  split at h
  · contradiction
  · contradiction
  · contradiction
  · exact (Word.plain.inj h).symm

theorem takeWhile_of_not_isValue (h : isValue text = false) (texts : List String) :
    (text :: texts).takeWhile isValue = [] := by
  rw [List.takeWhile_cons_of_neg (by rw [h]; exact Bool.false_ne_true)]

theorem isValue_of_option? {named : Slot × Option String}
    (h : (Word.ofText text).option? = some named) : isValue text = false := by
  unfold isValue
  split
  · next hw =>
    rw [hw] at h
    contradiction
  · rfl

namespace Intake

theorem settle_cases (h : i.settle = .ok a) : (i.waiting? = none ∧ a = i.arguments) ∨
    ∃ w, i.waiting? = some w ∧ i.arguments.give w.slot w.values = .ok a := by
  unfold settle at h
  split at h
  · next hw => exact .inl ⟨hw, (Except.ok.inj h).symm⟩
  · next w hw => exact .inr ⟨w, hw, h⟩

theorem option_cases {value? : Option String} (h : i.option s value? = .ok j) :
    ∃ a, i.settle = .ok a ∧ ((value? = none ∧ j = ⟨a, some ⟨s, []⟩⟩) ∨
      ∃ v b, value? = some v ∧ a.give s [v] = .ok b ∧ j = ⟨b, none⟩) := by
  obtain ⟨a, hs, h⟩ := bind_eq_ok_iff.1 h
  refine ⟨a, hs, ?_⟩
  cases value? with
  | none => exact .inl ⟨rfl, (Except.ok.inj h).symm⟩
  | some v =>
    obtain ⟨b, hb, h⟩ := bind_eq_ok_iff.1 h
    exact .inr ⟨v, b, rfl, hb, (Except.ok.inj h).symm⟩

theorem subset_cases (h : i.subset = .ok j) :
    ∃ a, i.settle = .ok a ∧ j = ⟨{ a with subset := true }, none⟩ := by
  obtain ⟨a, hs, h⟩ := bind_eq_ok_iff.1 h
  obtain ⟨b, hb, h⟩ := bind_eq_ok_iff.1 h
  refine ⟨a, hs, ?_⟩
  unfold Arguments.setSubset at hb
  split at hb
  · contradiction
  · rw [← Except.ok.inj h, ← Except.ok.inj hb]

theorem value_cases (h : i.value text = .ok j) : ∃ w, i.waiting? = some w ∧ w.isOpen = true ∧
    j = ⟨i.arguments, some ⟨w.slot, w.values ++ [text]⟩⟩ := by
  unfold value at h
  split at h
  · next w hw =>
    split at h
    · next ho => exact ⟨w, hw, ho, (Except.ok.inj h).symm⟩
    · contradiction
  · contradiction

/-- All that a word can do, unless it asks for help. -/
theorem word_cases (h : i.word w = .ok (some j)) :
    (w = .escape ∧ j = i) ∨ (∃ text, w = .plain text ∧ i.value text = .ok j) ∨
    (∃ s value?, w.option? = some (s, value?) ∧ i.option s value? = .ok j) ∨
    (w = .long "subset" none ∧ i.subset = .ok j) := by
  have bare {x : Except UsageError Intake} (hx : some <$> x = .ok (some j)) : x = .ok j := by
    obtain ⟨k, hk, he⟩ := map_eq_ok_iff.1 hx
    rw [hk, Option.some.inj he]
  have no_help {x : Except UsageError Arguments}
      (hx : x.map (fun _ => (none : Option Intake)) = .ok (some j)) : False := by
    obtain ⟨a, -, he⟩ := map_eq_ok_iff.1 hx
    contradiction
  unfold word at h
  split at h
  · exact .inl ⟨rfl, (Option.some.inj (Except.ok.inj h)).symm⟩
  · exact .inr (.inl ⟨_, rfl, bare h⟩)
  · exact .inr (.inr (.inl ⟨_, _, rfl, bare h⟩))
  · exact .inr (.inr (.inl ⟨_, _, rfl, bare h⟩))
  · exact .inr (.inr (.inl ⟨_, _, rfl, bare h⟩))
  · exact .inr (.inr (.inr ⟨rfl, bare h⟩))
  · exact (no_help h).elim
  · contradiction
  · contradiction
  · contradiction
  · exact .inr (.inr (.inl ⟨_, _, rfl, bare h⟩))
  · exact .inr (.inr (.inl ⟨_, _, rfl, bare h⟩))
  · exact (no_help h).elim
  · contradiction

theorem values_settle (h : i.settle = .ok a) (hf : i.Fits) (stops : texts.takeWhile isValue = []) :
    a.values slot = i.values slot texts := by
  rcases settle_cases h with ⟨hw, rfl⟩ | ⟨w, hw, hg⟩
  · simp only [values, hw, List.append_nil]
  · simp only [values, hw, stops, List.append_nil]
    exact values_give hg (hf w hw) slot

theorem isOpen_fits {v : Waiting} (h : v.isOpen = true) (text : String) :
    Waiting.Fits ⟨v.slot, v.values ++ [text]⟩ := by
  rcases Bool.or_eq_true_iff.1 h with hd | he
  · exact .inl (of_decide_eq_true hd)
  · exact .inr (by rw [List.isEmpty_iff.1 he]; exact Nat.le_refl 1)

/-- A word gives each option the values that it brings or that follow it, and no others. -/
theorem values_word (h : i.word (Word.ofText text) = .ok (some j)) (hf : i.Fits)
    (last : Word.ofText text = .escape → texts = []) : j.Fits ∧
      ∀ slot, j.values slot texts =
        i.values slot (text :: texts) ++ (Word.ofText text).values slot texts := by
  rcases word_cases h with ⟨hw, rfl⟩ | ⟨t, hw, hv⟩ | ⟨s, value?, hw, ho⟩ | ⟨hw, hs⟩
  -- An escape ends the values of a waiting option, but then no texts are left for it anyway.
  · have hv : isValue text = false := by rw [isValue, hw]
    refine ⟨hf, fun slot => ?_⟩
    simp [values, Word.values, Word.option?, takeWhile_of_not_isValue hv, last hw, hw]
  -- A value moves from the texts to the values that wait.
  · obtain rfl := eq_of_ofText_eq_plain hw
    obtain ⟨v, hwait, hopen, rfl⟩ := value_cases hv
    have hv : isValue t = true := by rw [isValue, hw]
    refine ⟨fun u hu => Option.some.inj hu ▸ isOpen_fits hopen t, fun slot => ?_⟩
    simp [values, Word.values, Word.option?, hwait, hw, hv]
  -- An option closes the one before it, which has all its values by now.
  · have stops := takeWhile_of_not_isValue (isValue_of_option? hw) texts
    obtain ⟨a, hs, ho⟩ := option_cases ho
    rcases ho with ⟨rfl, rfl⟩ | ⟨v, b, rfl, hb, rfl⟩
    · refine ⟨fun u hu => Option.some.inj hu ▸ .inr (Nat.zero_le 1), fun slot => ?_⟩
      rw [← values_settle hs hf stops]
      simp [values, Word.values, hw]
    · refine ⟨nofun, fun slot => ?_⟩
      rw [← values_settle hs hf stops]
      simp [values, Word.values, hw, values_give hb (.inr (Nat.le_refl 1)) slot]
  · have hv : isValue text = false := by rw [isValue, hw]
    obtain ⟨a, settled, rfl⟩ := subset_cases hs
    refine ⟨nofun, fun slot => ?_⟩
    rw [← values_settle settled hf (takeWhile_of_not_isValue hv texts), hw]
    cases slot <;> simp [values, Word.values, Word.option?, Arguments.values]

theorem readAll_nil (h : i.readAll [] = .ok (.check a)) : i.settle = .ok a := by
  obtain ⟨b, hb, he⟩ := map_eq_ok_iff.1 h
  rw [hb, Request.check.inj he]

theorem readAll_cons (h : i.readAll (text :: texts) = .ok (.check a)) :
    ∃ j, i.word (Word.ofText text) = .ok (some j) ∧ j.readAll texts = .ok (.check a) ∧
      (Word.ofText text = .escape → texts = []) := by
  unfold readAll at h
  split at h
  · contradiction
  · next rest _ _ alone =>
    split at h
    · contradiction
    · cases h
    · next j hj =>
      refine ⟨j, hj, h, fun hw => ?_⟩
      cases rest with
      | nil => rfl
      | cons next rest => exact (alone next rest hw rfl).elim

/-- What a call is taken to give to an option is what stands there for it. -/
theorem values_readAll (h : i.readAll texts = .ok (.check a)) (hf : i.Fits) (slot : Slot) :
    a.values slot = i.values slot texts ++ given slot texts := by
  -- What an intake has counts the values that are still to come, so each step leaves the sum alone.
  induction texts generalizing i with
  | nil =>
    rw [given, List.append_nil]
    exact values_settle (readAll_nil h) hf rfl
  | cons text texts ih =>
    obtain ⟨j, hj, h, last⟩ := readAll_cons h
    obtain ⟨hf, moved⟩ := values_word hj hf last
    rw [ih h hf, moved, given, List.append_assoc]

theorem ne_nil_of_settle {v : Waiting} (h : i.settle = .ok a) (hw : i.waiting? = some v) :
    v.values ≠ [] := by
  rcases settle_cases h with ⟨hn, -⟩ | ⟨u, hu, hg⟩
  · rw [hn] at hw
    contradiction
  · rw [hw] at hu
    exact Option.some.inj hu ▸ give_ne_nil hg

/-- No option waits in vain. -/
theorem ne_nil_of_readAll {v : Waiting} (h : i.readAll texts = .ok (.check a))
    (hw : i.waiting? = some v) : v.values ++ texts.takeWhile isValue ≠ [] := by
  have settled {b : Arguments} (hs : i.settle = .ok b) :
      v.values ++ texts.takeWhile isValue ≠ [] :=
    List.append_ne_nil_of_left_ne_nil (ne_nil_of_settle hs hw) _
  cases texts with
  | nil => exact settled (readAll_nil h)
  | cons text texts =>
    obtain ⟨j, hj, hr, last⟩ := readAll_cons h
    rcases word_cases hj with ⟨he, rfl⟩ | ⟨t, he, -⟩ | ⟨s, value?, -, ho⟩ | ⟨-, hs⟩
    · rw [last he] at hr
      exact settled (readAll_nil hr)
    · have hv : isValue text = true := by rw [isValue, he]
      rw [List.takeWhile_cons_of_pos hv]
      exact List.append_ne_nil_of_right_ne_nil _ (List.cons_ne_nil _ _)
    · obtain ⟨b, hs, -⟩ := option_cases ho
      exact settled hs
    · obtain ⟨b, hs, -⟩ := subset_cases hs
      exact settled hs

theorem given_ne_nil (h : i.readAll texts = .ok (.check a)) (hm : text ∈ texts)
    (hn : Names slot text) : given slot texts ≠ [] := by
  induction texts generalizing i with
  | nil => contradiction
  | cons head texts ih =>
    obtain ⟨j, hj, h, -⟩ := readAll_cons h
    rw [given]
    rcases List.mem_cons.1 hm with rfl | hm
    · apply List.append_ne_nil_of_left_ne_nil
      obtain ⟨value?, ho⟩ := hn
      rcases word_cases hj with ⟨hw, -⟩ | ⟨t, hw, -⟩ | ⟨s, v?, hw, hi⟩ | ⟨hw, -⟩
      · rw [hw] at ho
        contradiction
      · rw [hw] at ho
        contradiction
      · obtain ⟨rfl, rfl⟩ := Prod.mk.inj (Option.some.inj (ho.symm.trans hw))
        obtain ⟨b, -, ⟨rfl, rfl⟩ | ⟨v, -, rfl, -, -⟩⟩ := option_cases hi
        · simp only [Word.values, ho, if_true]
          exact ne_nil_of_readAll h rfl
        · simp [Word.values, ho]
      · rw [hw] at ho
        contradiction
    · exact List.append_ne_nil_of_right_ne_nil _ (ih h hm)

end Intake

theorem Word.exists_option?_of_values (h : w.values slot texts ≠ []) :
    ∃ value?, w.option? = some (slot, value?) := by
  unfold Word.values at h
  split at h
  · next value ho =>
    obtain rfl := of_not_not fun hne => h (if_neg hne)
    exact ⟨some value, ho⟩
  · next ho =>
    obtain rfl := of_not_not fun hne => h (if_neg hne)
    exact ⟨none, ho⟩
  · contradiction

theorem exists_names_of_given (h : given slot texts ≠ []) : ∃ text ∈ texts, Names slot text := by
  induction texts with
  | nil => contradiction
  | cons text texts ih =>
    by_cases ht : (Word.ofText text).values slot texts = []
    · rw [given, ht, List.nil_append] at h
      obtain ⟨t, hm, hn⟩ := ih h
      exact ⟨t, List.mem_cons_of_mem text hm, hn⟩
    · exact ⟨text, List.mem_cons_self, Word.exists_option?_of_values ht⟩

/-- The arguments of a call are the values that stand behind its options, and each option that is
named has some. -/
theorem values_parse (h : Request.parse texts = .ok (.check a)) (slot : Slot) :
    a.values slot = given slot texts ∧ (a.values slot ≠ [] ↔ ∃ text ∈ texts, Names slot text) := by
  have values_eq : a.values slot = given slot texts := by
    rw [Intake.values_readAll h nofun slot]
    cases slot <;> rfl
  refine ⟨values_eq, ?_⟩
  rw [values_eq]
  refine ⟨exists_names_of_given, fun hn => ?_⟩
  obtain ⟨text, hm, hn⟩ := hn
  exact Intake.given_ne_nil h hm hn

theorem Word.eq_long_of_option? {value? : Option String}
    (h : w.option? = some (.diagram, value?)) : w = .long "dot" value? := by
  unfold option? at h
  split at h <;> cases h
  rfl

/-- A long option is spelled with two hyphens, and an equality sign if a value is attached. -/
theorem Word.spelling_of_long {name : String} {value? : Option String}
    (h : Word.ofText text = .long name value?) :
    text = "--" ++ name ++ value?.elim "" ("=" ++ ·) := by
  unfold Word.ofText at h
  split at h
  · contradiction
  · next cs _ ht =>
    obtain ⟨rfl, rfl⟩ := Word.long.inj h
    have spelling : text = "--" ++ String.ofList cs := by
      apply String.toList_inj.1
      simp [ht]
    have head := List.head?_dropWhile_not (· ≠ '=') cs
    calc
      text = "--" ++ String.ofList (cs.takeWhile (· ≠ '=') ++ cs.dropWhile (· ≠ '=')) := by
        rw [List.takeWhile_append_dropWhile, spelling]
      _ = "--" ++ String.ofList (cs.takeWhile (· ≠ '=')) ++
          String.ofList (cs.dropWhile (· ≠ '=')) := by
        rw [String.ofList_append, String.append_assoc]
      _ = _ := by
        congr 1
        cases hd : cs.dropWhile (· ≠ '=') with
        | nil => rfl
        | cons c value =>
          rw [hd] at head
          obtain rfl : c = '=' := by simpa using head
          apply String.toList_inj.1
          simp
  · contradiction
  · contradiction

/-- A diagram is asked for by a word that is `--dot`, or begins so and goes on with a value. -/
theorem names_diagram_iff :
    Names .diagram text ↔ text = "--dot" ∨ ∃ value, text = "--dot=" ++ value := by
  refine ⟨fun ⟨value?, h⟩ => ?_, fun h => ?_⟩
  · have spelling := Word.spelling_of_long (Word.eq_long_of_option? h)
    cases value? with
    | none => exact .inl spelling
    | some value => exact .inr ⟨value, spelling.trans (String.append_assoc ..).symm⟩
  · rcases h with rfl | ⟨value, rfl⟩
    · exact ⟨none, rfl⟩
    · refine ⟨some value, ?_⟩
      have ht : ("--dot=" ++ value).toList = "--dot=".toList ++ value.toList :=
        String.toList_append
      simp [Word.ofText, ht, Word.option?]

end Meld.CommandLine
