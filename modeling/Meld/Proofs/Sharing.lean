import Mathlib.Data.Finset.Card
import Mathlib.Data.List.DropRight
import Meld.Memo
import Meld.Proofs.Legal

namespace Meld.Memo

inductive Call where
  | get (text : String)
  | clear
  deriving DecidableEq

def call (m : Memo) : Call → Memo
  | .get text => (m.get text).2
  | .clear => m.clear

def calls (m : Memo) (cs : List Call) : Memo := cs.foldl call m

def after (cs : List Call) : Memo := empty.calls cs

def Call.compiled? : Call → Option String
  | get text =>
    match Automaton.ofText text with
    | .ok _ => some text
    | .error _ => none
  | clear => none

/-- The texts that were compiled since the memo was last cleared, each of them once. -/
def compiled (cs : List Call) : Finset String :=
  ((cs.rtakeWhile (· ≠ .clear)).filterMap Call.compiled?).toFinset

def Holds (m : Memo) (text : String) (k : Handle) : Prop := m.entries[text]? = some k

/-- A memo holds the phases of the given texts as compiling them anew would give them, under serial
numbers that differ. -/
structure Faithful (m : Memo) (texts : Finset String) : Prop where
  mem_iff : ∀ text, text ∈ m.entries ↔ text ∈ texts
  size_eq : m.entries.size = texts.card
  automaton : ∀ {text k}, m.Holds text k → Automaton.ofText text = .ok k.automaton
  serial_lt : ∀ {text k}, m.Holds text k → k.serial < m.nextSerial
  text_eq : ∀ {text text' k k'}, m.Holds text k → m.Holds text' k' → k.serial = k'.serial →
    text = text'

structure Newer (n : Nat) (m : Memo) : Prop where
  le_nextSerial : n ≤ m.nextSerial
  le_serial : ∀ {text k}, m.Holds text k → n ≤ k.serial

variable {m : Memo} {text text' : String} {k k' : Handle} {texts : Finset String} {n : Nat}

theorem Holds.unique (h : m.Holds text k) (h' : m.Holds text k') : k = k' :=
  Option.some.inj (h.symm.trans h')

theorem Holds.mem (h : m.Holds text k) : text ∈ m.entries := by
  rw [Std.HashMap.mem_iff_isSome_getElem?, h]
  rfl

theorem not_holds_clear : ¬m.clear.Holds text k := by
  intro h
  rw [Holds, clear, Std.HashMap.getElem?_empty] at h
  contradiction

/-- An entry is the one just made, or was there before. -/
theorem holds_insert {a : Automaton} (h : Holds
    ⟨m.entries.insert text ⟨m.nextSerial, a⟩, m.nextSerial + 1⟩ text' k) :
    (text' = text ∧ k = ⟨m.nextSerial, a⟩) ∨ m.Holds text' k := by
  rw [Holds, Std.HashMap.getElem?_insert] at h
  split at h
  · next he => exact .inl ⟨(beq_iff_eq.1 he).symm, (Option.some.inj h).symm⟩
  · exact .inr h

/-- A text is at hand, or of no phase, or compiled under a new serial number. -/
theorem get_cases (m : Memo) (text : String) :
    (∃ k, m.Holds text k ∧ m.get text = (.ok k, m)) ∨
    (∃ error, Automaton.ofText text = .error error ∧ m.get text = (.error error, m)) ∨
    ∃ a, text ∉ m.entries ∧ Automaton.ofText text = .ok a ∧ m.get text = (.ok ⟨m.nextSerial, a⟩,
      ⟨m.entries.insert text ⟨m.nextSerial, a⟩, m.nextSerial + 1⟩) := by
  unfold get
  cases hm : m.entries[text]? with
  | some k => exact .inl ⟨k, hm, rfl⟩
  | none =>
    cases ht : Automaton.ofText text with
    | error error => exact .inr (.inl ⟨error, rfl, rfl⟩)
    | ok a =>
      have absent : text ∉ m.entries := by
        rw [Std.HashMap.mem_iff_isSome_getElem?, hm]
        exact Bool.false_ne_true
      exact .inr (.inr ⟨a, absent, rfl, rfl⟩)

theorem get_refused {error : Phase.Error} (h : (m.get text).1 = .error error) :
    (m.get text).2 = m := by
  rcases get_cases m text with ⟨k, -, hg⟩ | ⟨e, -, hg⟩ | ⟨a, -, -, hg⟩
  · rw [hg]
  · rw [hg]
  · rw [hg] at h
    contradiction

/-- What is given out is held. -/
theorem holds_get (h : (m.get text).1 = .ok k) : (m.get text).2.Holds text k := by
  rcases get_cases m text with ⟨k', hm, hg⟩ | ⟨e, -, hg⟩ | ⟨a, -, -, hg⟩
  · rw [hg] at h ⊢
    exact Except.ok.inj h ▸ hm
  · rw [hg] at h
    contradiction
  · rw [hg] at h ⊢
    rw [Holds, Std.HashMap.getElem?_insert, if_pos (beq_self_eq_true text), Except.ok.inj h]

/-- Looking up a text takes nothing away. -/
theorem Holds.get (h : m.Holds text k) (text' : String) : (m.get text').2.Holds text k := by
  rcases get_cases m text' with ⟨k', -, hg⟩ | ⟨e, -, hg⟩ | ⟨a, absent, -, hg⟩
  · rwa [hg]
  · rwa [hg]
  · have hne : text' ≠ text := by
      rintro rfl
      exact absent h.mem
    rw [hg, Holds, Std.HashMap.getElem?_insert, if_neg (by simpa using hne)]
    exact h

/-- A phase is held until the memo is cleared. -/
theorem Holds.calls {cs : List Call} (h : m.Holds text k) (hc : .clear ∉ cs) :
    (m.calls cs).Holds text k := by
  induction cs generalizing m with
  | nil => exact h
  | cons c cs ih =>
    have hcs : .clear ∉ cs := fun hm => hc (List.mem_cons_of_mem c hm)
    cases c with
    | get text' => exact ih (h.get text') hcs
    | clear => exact absurd List.mem_cons_self hc

namespace Newer

theorem clear (h : n ≤ m.nextSerial) : Newer n m.clear :=
  ⟨h, fun hk => absurd hk not_holds_clear⟩

theorem get (h : Newer n m) (text : String) : Newer n (m.get text).2 := by
  rcases get_cases m text with ⟨k, -, hg⟩ | ⟨e, -, hg⟩ | ⟨a, -, -, hg⟩
  · rwa [hg]
  · rwa [hg]
  · rw [hg]
    refine ⟨Nat.le_succ_of_le h.le_nextSerial, fun hk => ?_⟩
    rcases holds_insert hk with ⟨-, rfl⟩ | hk
    · exact h.le_nextSerial
    · exact h.le_serial hk

theorem calls (h : Newer n m) (cs : List Call) : Newer n (m.calls cs) := by
  induction cs generalizing m with
  | nil => exact h
  | cons c cs ih =>
    cases c with
    | get text => exact ih (h.get text)
    | clear => exact ih (clear h.le_nextSerial)

end Newer

theorem nextSerial_le_get (m : Memo) (text : String) :
    m.nextSerial ≤ (m.get text).2.nextSerial := by
  rcases get_cases m text with ⟨k, -, hg⟩ | ⟨e, -, hg⟩ | ⟨a, -, -, hg⟩
  · rw [hg]
  · rw [hg]
  · rw [hg]
    exact Nat.le_succ m.nextSerial

/-- Once a memo has been cleared, nothing that it held before comes back. -/
theorem newer_calls_of_clear {cs : List Call} (h : n ≤ m.nextSerial) (hc : .clear ∈ cs) :
    Newer n (m.calls cs) := by
  induction cs generalizing m with
  | nil => contradiction
  | cons c cs ih =>
    cases c with
    | get text =>
      have hcs : .clear ∈ cs := (List.mem_cons.1 hc).resolve_left nofun
      exact ih (h.trans (nextSerial_le_get m text)) hcs
    | clear => exact (Newer.clear h).calls cs

namespace Faithful

theorem clear (m : Memo) : Faithful m.clear ∅ where
  mem_iff text := by simp [Memo.clear]
  size_eq := Std.HashMap.size_empty
  automaton h := absurd h not_holds_clear
  serial_lt h := absurd h not_holds_clear
  text_eq h := absurd h not_holds_clear

theorem insert {a : Automaton} (h : Faithful m texts) (absent : text ∉ m.entries)
    (ha : Automaton.ofText text = .ok a) :
    Faithful ⟨m.entries.insert text ⟨m.nextSerial, a⟩, m.nextSerial + 1⟩ (insert text texts) where
  mem_iff t := by
    rw [Std.HashMap.mem_insert, Finset.mem_insert, h.mem_iff, beq_iff_eq, eq_comm]
  size_eq := by
    rw [Std.HashMap.size_insert, if_neg absent, h.size_eq,
      Finset.card_insert_of_notMem (mt (h.mem_iff text).2 absent)]
  automaton hk := by
    rcases holds_insert hk with ⟨rfl, rfl⟩ | hk
    · exact ha
    · exact h.automaton hk
  serial_lt hk := by
    rcases holds_insert hk with ⟨-, rfl⟩ | hk
    · exact Nat.lt_succ_self m.nextSerial
    · exact Nat.lt_succ_of_lt (h.serial_lt hk)
  text_eq hk hk' hs := by
    rcases holds_insert hk with ⟨rfl, rfl⟩ | hk <;> rcases holds_insert hk' with ⟨he, rfl⟩ | hk'
    · exact he.symm
    · exact absurd hs (Nat.ne_of_gt (h.serial_lt hk'))
    · exact absurd hs (Nat.ne_of_lt (h.serial_lt hk))
    · exact h.text_eq hk hk' hs

theorem get {a : Automaton} (h : Faithful m texts) (ha : Automaton.ofText text = .ok a) :
    Faithful (m.get text).2 (Insert.insert text texts) := by
  rcases get_cases m text with ⟨k, hm, hg⟩ | ⟨e, ht, hg⟩ | ⟨b, absent, ht, hg⟩
  · have present : text ∈ texts := (h.mem_iff text).1 hm.mem
    rw [hg, Finset.insert_eq_of_mem present]
    exact h
  · rw [ha] at ht
    contradiction
  · rw [hg]
    exact h.insert absent ht

theorem get_error {error : Phase.Error} (h : Faithful m texts)
    (he : Automaton.ofText text = .error error) : Faithful (m.get text).2 texts := by
  rcases get_cases m text with ⟨k, -, hg⟩ | ⟨e, -, hg⟩ | ⟨a, -, ht, hg⟩
  · rwa [hg]
  · rwa [hg]
  · rw [he] at ht
    contradiction

theorem map_get (h : Faithful m texts) (text : String) :
    (m.get text).1.map Handle.automaton = Automaton.ofText text := by
  rcases get_cases m text with ⟨k, hm, hg⟩ | ⟨e, ht, hg⟩ | ⟨a, -, ht, hg⟩
  · rw [hg, h.automaton hm]
    rfl
  · rw [hg, ht]
    rfl
  · rw [hg, ht]
    rfl

end Faithful

theorem compiled_concat_clear (cs : List Call) : compiled (cs ++ [.clear]) = ∅ := by
  rw [compiled, List.rtakeWhile_concat_neg _ _ _ (by simp)]
  rfl

theorem compiled_concat_get (cs : List Call) (text : String) : compiled (cs ++ [.get text]) =
    ((Call.get text).compiled?.toList).toFinset ∪ compiled cs := by
  rw [compiled, List.rtakeWhile_concat_pos _ _ _ (by simp), List.filterMap_append,
    List.toFinset_append, Finset.union_comm]
  cases h : (Call.get text).compiled? with
  | some t => rw [List.filterMap_cons_some h]; rfl
  | none => rw [List.filterMap_cons_none h]; rfl

theorem calls_append (m : Memo) (cs ds : List Call) :
    m.calls (cs ++ ds) = (m.calls cs).calls ds := List.foldl_append

theorem after_append (cs ds : List Call) : after (cs ++ ds) = (after cs).calls ds :=
  calls_append empty cs ds

theorem after_faithful (cs : List Call) : Faithful (after cs) (compiled cs) := by
  -- The induction is on the last call, since it decides whether the earlier ones still count.
  induction cs using List.reverseRecOn with
  | nil => exact .clear empty
  | append_singleton cs c ih =>
    rw [after_append]
    cases c with
    | get text =>
      rw [compiled_concat_get, Call.compiled?]
      cases ht : Automaton.ofText text with
      | ok a => exact ih.get ht
      | error e =>
        rw [Option.toList_none, List.toFinset_nil, Finset.empty_union]
        exact ih.get_error ht
    | clear =>
      rw [compiled_concat_clear]
      exact .clear _

/-- A handle is given out again for its own text only, and not after the memo was cleared. -/
theorem Faithful.serial_eq_iff {cs : List Call} {texts' : Finset String} (h : Faithful m texts)
    (h' : Faithful (m.calls cs) texts') (hk : m.Holds text k) (hk' : (m.calls cs).Holds text' k') :
    (k.serial = k'.serial ↔ text = text' ∧ .clear ∉ cs) ∧ (k.serial = k'.serial → k = k') := by
  by_cases hc : .clear ∈ cs
  -- Clearing keeps the counter, so that what comes after has a larger serial number.
  · have older : k.serial < k'.serial :=
      Nat.lt_of_lt_of_le (h.serial_lt hk) ((newer_calls_of_clear (Nat.le_refl _) hc).le_serial hk')
    refine ⟨⟨fun hs => absurd hs (Nat.ne_of_lt older), fun ht => absurd hc ht.2⟩, fun hs => ?_⟩
    exact absurd hs (Nat.ne_of_lt older)
  -- Otherwise both are held at the end, where a text has one handle and a handle one text.
  · have still := hk.calls hc
    have eq_of_text (ht : text = text') : k = k' := still.unique (ht ▸ hk')
    refine ⟨⟨fun hs => ⟨h'.text_eq still hk' hs, hc⟩, fun ht => ?_⟩, fun hs => ?_⟩
    · rw [eq_of_text ht.1]
    · exact eq_of_text (h'.text_eq still hk' hs)

/-- A memo answers as if each text were compiled anew. It shares what it compiled for a text until
it is cleared, counts the texts that it compiled since then, and keeps nothing of a bad text. -/
theorem get_after (cs : List Call) :
    (∀ text, ((after cs).get text).1.map Handle.automaton = Automaton.ofText text) ∧
    (∀ text error, ((after cs).get text).1 = .error error → ((after cs).get text).2 = after cs) ∧
    (after cs).size = (compiled cs).card ∧
    ((after cs).isEmpty = true ↔ (compiled cs).card = 0) ∧
    ∀ text ds text' k k', ((after cs).get text).1 = .ok k →
      ((after (cs ++ .get text :: ds)).get text').1 = .ok k' →
        (k.serial = k'.serial ↔ text = text' ∧ .clear ∉ ds) ∧ (k.serial = k'.serial → k = k') := by
  have h := after_faithful cs
  have size_eq : (after cs).size = (compiled cs).card := h.size_eq
  refine ⟨h.map_get, fun _ _ => get_refused, size_eq, ?_, fun text ds text' k k' hk hk' => ?_⟩
  · rw [← size_eq, isEmpty, Std.HashMap.isEmpty_eq_size_eq_zero, beq_iff_eq]
    rfl
  -- What was given out is compared with what the memo gives out at the end of both runs.
  · have now := after_faithful (cs ++ [.get text])
    have later := after_faithful (cs ++ .get text :: (ds ++ [.get text']))
    rw [after_append] at now later hk'
    have split : ((after cs).get text).2.calls (ds ++ [.get text']) =
      ((((after cs).get text).2.calls ds).get text').2 := calls_append _ ds [.get text']
    have shared := now.serial_eq_iff later (holds_get hk) (split ▸ holds_get hk')
    rwa [List.mem_append, List.mem_singleton, or_iff_left nofun] at shared

/-- Two ways to write one phase are kept apart, and what was given out before a memo was cleared is
not given out again. -/
theorem get_after_respelled : ∃ k k' l, ((after []).get "R1").1 = .ok k ∧
    ((after [.get "R1"]).get "R01").1 = .ok k' ∧
    ((after [.get "R1", .get "R01", .clear]).get "R1").1 = .ok l ∧
    k.automaton = k'.automaton ∧ k.serial ≠ k'.serial ∧ k.serial ≠ l.serial := by
  have parsed : Phase.parse "R1" = .ok (.sized [⟨.run, 1⟩]) := by decide
  have parsed' : Phase.parse "R01" = .ok (.sized [⟨.run, 1⟩]) := by decide
  -- A hash table of texts does not evaluate: that the calls succeed is read off the theorem.
  have given (cs : List Call) {text : String}
      (h : Phase.parse text = .ok (.sized [⟨.run, 1⟩])) :
      ∃ k, ((after cs).get text).1 = .ok k ∧ k.automaton = .compile (.sized [⟨.run, 1⟩]) := by
    apply map_eq_ok_iff.1
    rw [(get_after cs).1, Automaton.ofText, h]
    rfl
  obtain ⟨k, hk, ha⟩ := given [] parsed
  obtain ⟨k', hk', ha'⟩ := given [.get "R1"] parsed'
  obtain ⟨l, hl, -⟩ := given [.get "R1", .get "R01", .clear] parsed
  have shared := (get_after []).2.2.2.2
  refine ⟨k, k', l, hk, hk', hl, ha.trans ha'.symm, fun hs => ?_, fun hs => ?_⟩
  · exact absurd ((shared "R1" [] "R01" k k' hk hk').1.1 hs).1 (by decide)
  · exact ((shared "R1" [.get "R01", .clear] "R1" k l hk hl).1.1 hs).2 (by simp)

end Meld.Memo
