import Meld.Proofs.Legal
import Meld.Proofs.Numerals

namespace Meld

theorem not_mem_of_mem_splitOn {α : Type} [DecidableEq α] {x : α} {xs part : List α}
    (h : part ∈ xs.splitOn x) : x ∉ part := by
  rw [List.splitOn_eq_splitOnP] at h
  induction xs generalizing part with
  | nil =>
    obtain rfl : part = [] := by simpa using h
    exact List.not_mem_nil
  | cons y xs ih =>
    rw [List.splitOnP_cons_eq_if_modifyHead] at h
    split at h
    · rcases List.mem_cons.1 h with rfl | h
      · exact List.not_mem_nil
      · exact ih h
    · next hy =>
      obtain ⟨q, qs, hq⟩ := List.exists_cons_of_ne_nil (List.splitOnP_ne_nil (· == x) xs)
      rw [hq, List.modifyHead_cons] at h
      rcases List.mem_cons.1 h with rfl | h
      · rw [List.mem_cons, not_or]
        exact ⟨fun he => hy (by simp [he]), ih (hq ▸ List.mem_cons_self)⟩
      · exact ih (hq ▸ List.mem_cons_of_mem q h)

/-- There is one way to take a text apart at a character. -/
theorem splitOn_eq_iff {α : Type} [DecidableEq α] {x : α} {xs : List α} {parts : List (List α)} :
    xs.splitOn x = parts ↔
      parts ≠ [] ∧ xs = [x].intercalate parts ∧ ∀ part ∈ parts, x ∉ part := by
  constructor
  · rintro rfl
    exact ⟨List.splitOn_ne_nil x xs, (List.intercalate_splitOn x).symm,
      fun part => not_mem_of_mem_splitOn⟩
  · rintro ⟨hne, rfl, hx⟩
    exact List.splitOn_intercalate x hx hne

theorem Shape.limit_le (s : Shape) : s.limit ≤ 108 := by cases s <;> decide

namespace Component

/-- A letter and one or more digits, and the number that these stand for. -/
def Spelled (cs : List Char) (shape : Shape) (value : Nat) : Prop :=
  ∃ digits, cs = shape.letter :: digits ∧ digits ≠ [] ∧ (∀ d ∈ digits, d.isDigit = true) ∧
    Text.numeralValue digits = value

/-- What is wrong with a part of a text. A number is reported without leading zeros, and one that is
too large for a machine word as the largest of these. -/
inductive Fault (whole : String) (cs : List Char) : Phase.Error → Prop where
  | unrecognized : (∀ shape value, ¬Spelled cs shape value) → Fault whole cs (.unrecognized whole)
  | badSize {shape : Shape} {value : Nat} {size : UInt64} : Spelled cs shape value →
      ¬(1 ≤ value ∧ value ≤ shape.limit) → size.toNat = min value (2 ^ 64 - 1) →
      Fault whole cs
        (.badSize (String.ofList (shape.letter :: Text.numeral size.toNat)) size shape.limit)

variable {whole : String} {cs : List Char} {shape : Shape} {value : Nat} {size : UInt64}
  {c : Component} {e : Phase.Error}

theorem spelled_chars (c : Component) : Spelled c.chars c.shape c.size.toNat := by
  obtain ⟨hne, hd⟩ := Text.isNumeral_iff.1 (Text.isNumeral_numeral c.size.toNat)
  exact ⟨_, rfl, hne, hd, Text.numeralValue_numeral _⟩

theorem toNat_readSize (digits : List Char) :
    (readSize digits).toNat = min (Text.numeralValue digits) (2 ^ 64 - 1) := by
  have hm : min (Text.numeralValue digits) (UInt64.size - 1) < UInt64.size :=
    Nat.lt_of_le_of_lt (Nat.min_le_right ..) (by decide)
  exact UInt64.toNat_ofNat_of_lt' hm

theorem inRange_iff (h : size.toNat = min value (2 ^ 64 - 1)) :
    InRange ⟨shape, size⟩ ↔ 1 ≤ value ∧ value ≤ shape.limit := by
  have hl := shape.limit_le
  unfold InRange
  dsimp only
  rw [h]
  omega

/-- A number in range fits a machine word. -/
theorem toNat_ofNat_of_le (h : value ≤ 108) : (UInt64.ofNat value).toNat = value := by
  apply UInt64.toNat_ofNat_of_lt'
  exact Nat.lt_of_le_of_lt h (by decide)

theorem parse_of_spelled (whole : String) (h : Spelled cs shape value) :
    ∃ size : UInt64, size.toNat = min value (2 ^ 64 - 1) ∧ parse whole cs = make shape size := by
  obtain ⟨digits, rfl, hne, hd, rfl⟩ := h
  refine ⟨readSize digits, toNat_readSize digits, ?_⟩
  simp only [parse, Shape.ofLetter?_letter, Text.isNumeral_iff.2 ⟨hne, hd⟩, if_true]

theorem parse_of_not_spelled (whole : String) (h : ∀ shape value, ¬Spelled cs shape value) :
    parse whole cs = .error (.unrecognized whole) := by
  unfold parse
  split
  · next letter digits =>
    split
    · next shape hs =>
      split
      · next hn =>
        obtain ⟨hne, hd⟩ := Text.isNumeral_iff.1 hn
        rw [← Shape.ofLetter?_eq_some_iff.1 hs] at h
        exact absurd ⟨digits, rfl, hne, hd, rfl⟩ (h shape _)
      · rfl
    · rfl
  · rfl

theorem parse_cases (whole : String) (cs : List Char) :
    (∃ shape value, ∃ size : UInt64, Spelled cs shape value ∧
      size.toNat = min value (2 ^ 64 - 1) ∧ parse whole cs = make shape size) ∨
    (∀ shape value, ¬Spelled cs shape value) ∧ parse whole cs = .error (.unrecognized whole) := by
  by_cases hs : ∃ shape value, Spelled cs shape value
  · obtain ⟨shape, value, hs⟩ := hs
    obtain ⟨size, hv, hp⟩ := parse_of_spelled whole hs
    exact .inl ⟨shape, value, size, hs, hv, hp⟩
  · simp only [not_exists] at hs
    exact .inr ⟨hs, parse_of_not_spelled whole hs⟩

theorem parse_eq_ok_iff :
    parse whole cs = .ok c ↔ Spelled cs c.shape c.size.toNat ∧ c.InRange := by
  constructor
  · intro h
    rcases parse_cases whole cs with ⟨shape, value, size, hs, hv, hp⟩ | ⟨-, hp⟩
    · obtain ⟨rfl, hr⟩ := make_eq_ok_iff.1 (hp.symm.trans h)
      have he : size.toNat = value := by
        have hl := shape.limit_le
        have := ((inRange_iff hv).1 hr).2
        omega
      exact ⟨by rwa [he], hr⟩
    · rw [hp] at h
      contradiction
  · rintro ⟨hs, hr⟩
    obtain ⟨size, hv, hp⟩ := parse_of_spelled whole hs
    have hc : size = c.size := by
      have hw := c.size.toNat_lt
      apply UInt64.toNat_inj.1
      omega
    rw [hp, make_eq_ok_iff, hc]
    exact ⟨rfl, hr⟩

theorem parse_eq_error_iff : parse whole cs = .error e ↔ Fault whole cs e := by
  constructor
  · intro h
    rcases parse_cases whole cs with ⟨shape, value, size, hs, hv, hp⟩ | ⟨hs, hp⟩
    · rw [hp, make] at h
      split at h
      · contradiction
      · next hr =>
        cases h
        exact .badSize hs (mt (inRange_iff hv).2 hr) hv
    · rw [hp] at h
      cases h
      exact .unrecognized hs
  · rintro (hs | ⟨hs, hr, hv⟩)
    · exact parse_of_not_spelled whole hs
    · obtain ⟨size', hv', hp⟩ := parse_of_spelled whole hs
      obtain rfl := UInt64.toNat_inj.1 (hv.trans hv'.symm)
      rw [hp, make, if_neg (mt (inRange_iff hv).1 hr)]
      rfl

/-- A size that is refused is out of the range that the error gives. -/
theorem Fault.exists_shape {component : String} {max : Nat}
    (h : Fault whole cs (.badSize component size max)) : ∃ shape : Shape,
      component = String.ofList (shape.letter :: Text.numeral size.toNat) ∧
      max = (if shape = .run then 12 else 108) ∧ ¬(1 ≤ size.toNat ∧ size.toNat ≤ max) := by
  cases h with
  | @badSize shape value _ hs hr hv =>
    have limit : shape.limit = if shape = .run then 12 else 108 := by cases shape <;> rfl
    exact ⟨shape, rfl, limit, mt (inRange_iff hv).1 hr⟩

theorem exists_parse_iff : (∃ c, parse whole cs = .ok c) ↔
    ∃ shape value, Spelled cs shape value ∧ 1 ≤ value ∧ value ≤ shape.limit := by
  simp only [parse_eq_ok_iff]
  constructor
  · rintro ⟨c, hs, hr⟩
    exact ⟨c.shape, c.size.toNat, hs, hr⟩
  · rintro ⟨shape, value, hs, hr⟩
    have word := toNat_ofNat_of_le (Nat.le_trans hr.2 shape.limit_le)
    refine ⟨⟨shape, UInt64.ofNat value⟩, ?_, ?_⟩
    · rwa [word]
    · rwa [InRange, word]

theorem Spelled.plus_not_mem (h : Spelled cs shape value) : '+' ∉ cs := by
  obtain ⟨digits, rfl, -, hd, -⟩ := h
  rw [List.mem_cons, not_or]
  refine ⟨by cases shape <;> decide, fun hp => ?_⟩
  have := hd '+' hp
  contradiction

theorem Spelled.ne_singleton {l : Char} (h : Spelled cs shape value) : cs ≠ [l] := by
  obtain ⟨digits, rfl, hne, -⟩ := h
  exact fun he => hne (List.cons.inj he).2

end Component

namespace Phase

open Component

variable {text : String} {shape : Shape}

theorem parse_letter (h : text.toList = [shape.letter]) : parse text = .ok (unsized shape) := by
  simp only [parse, h, Shape.ofLetter?_letter]

theorem splitOn_singleton {l : Char} (h : l ≠ '+') : [l].splitOn '+' = [[l]] := by
  refine splitOn_eq_iff.2 ⟨List.cons_ne_nil _ _, rfl, ?_⟩
  simpa using Ne.symm h

/-- A single character that is no shape is refused as the first part of any other text is. -/
theorem parse_parts (h : ∀ shape : Shape, text.toList ≠ [shape.letter]) : parse text =
    ((text.toList.splitOn '+').mapM (Component.parse text)).map sized := by
  unfold parse
  split
  · next l hl =>
    split
    · next shape hs =>
      rw [Shape.ofLetter?_eq_some_iff] at hs
      exact absurd (hs ▸ hl) (h shape)
    · next hs =>
      by_cases hp : l = '+'
      · -- the first of two empty parts
        rw [hl, hp]
        rfl
      · have refused : Component.parse text [l] = .error (.unrecognized text) := by
          simp only [Component.parse, hs]
        rw [hl, splitOn_singleton hp, List.mapM_cons, refused]
        rfl
  · rfl

theorem parse_eq_unsized_iff :
    parse text = .ok (unsized shape) ↔ text.toList = [shape.letter] := by
  refine ⟨fun h => ?_, parse_letter⟩
  by_cases hl : ∃ shape' : Shape, text.toList = [shape'.letter]
  · obtain ⟨shape', hl⟩ := hl
    obtain rfl := unsized.inj (Except.ok.inj ((parse_letter hl).symm.trans h))
    exact hl
  · rw [parse_parts (not_exists.1 hl)] at h
    obtain ⟨components, -, hc⟩ := map_eq_ok_iff.1 h
    contradiction

/-- The parts of a text are components in the order in which they stand. -/
theorem parse_eq_sized_iff {components : List Component} : parse text = .ok (sized components) ↔
    ∃ parts, parts ≠ [] ∧ text.toList = ['+'].intercalate parts ∧
      List.Forall₂ (fun part c => Spelled part c.shape c.size.toNat ∧ c.InRange)
        parts components := by
  constructor
  · intro h
    by_cases hl : ∃ shape : Shape, text.toList = [shape.letter]
    · obtain ⟨shape, hl⟩ := hl
      rw [parse_letter hl] at h
      cases h
    · rw [parse_parts (not_exists.1 hl)] at h
      obtain ⟨_, hm, ⟨⟩⟩ := map_eq_ok_iff.1 h
      obtain ⟨hne, he, -⟩ := splitOn_eq_iff.1 (rfl : text.toList.splitOn '+' = _)
      exact ⟨_, hne, he, (mapM_eq_ok_iff.1 hm).imp fun _ _ => parse_eq_ok_iff.1⟩
  · rintro ⟨parts, hne, he, hf⟩
    have plus : ∀ part ∈ parts, '+' ∉ part := fun part hp => by
      obtain ⟨c, -, hc⟩ := exists_mem_of_forall₂ hf.flip hp
      exact hc.1.plus_not_mem
    have split := splitOn_eq_iff.2 ⟨hne, he, plus⟩
    -- a component is longer than the letter of a shape
    have letter : ∀ shape : Shape, text.toList ≠ [shape.letter] := by
      intro shape hl
      rw [hl, splitOn_singleton (by cases shape <;> decide)] at split
      subst split
      obtain ⟨c, -, hc, -⟩ := List.forall₂_cons_left_iff.1 hf
      exact hc.1.ne_singleton rfl
    rw [parse_parts letter, split, mapM_eq_ok_iff.2 (hf.imp fun _ _ => parse_eq_ok_iff.2)]
    rfl

/-- Good parts stand before the faulty one that is reported. -/
theorem parse_eq_error_iff {e : Error} : parse text = .error e ↔
    (∀ shape : Shape, text.toList ≠ [shape.letter]) ∧ ∃ good part rest,
      text.toList = ['+'].intercalate (good ++ part :: rest) ∧
      (∀ q ∈ good ++ part :: rest, '+' ∉ q) ∧
      (∀ q ∈ good, ∃ shape value, Spelled q shape value ∧ 1 ≤ value ∧ value ≤ shape.limit) ∧
      Fault text part e := by
  have first {parts : List (List Char)} : parts.mapM (Component.parse text) = .error e ↔
      ∃ good part rest, parts = good ++ part :: rest ∧
        (∀ q ∈ good, ∃ shape value, Spelled q shape value ∧ 1 ≤ value ∧ value ≤ shape.limit) ∧
        Fault text part e := by
    simp only [mapM_eq_error_iff, exists_parse_iff, Component.parse_eq_error_iff]
  constructor
  · intro h
    have letter : ∀ shape : Shape, text.toList ≠ [shape.letter] := by
      intro shape hl
      rw [parse_letter hl] at h
      contradiction
    rw [parse_parts letter, map_eq_error_iff, first] at h
    obtain ⟨good, part, rest, hp, hg, hf⟩ := h
    obtain ⟨-, he, plus⟩ := splitOn_eq_iff.1 hp
    exact ⟨letter, good, part, rest, he, plus, hg, hf⟩
  · rintro ⟨letter, good, part, rest, he, plus, hg, hf⟩
    have hp := splitOn_eq_iff.2 ⟨by simp, he, plus⟩
    rw [parse_parts letter, map_eq_error_iff, first]
    exact ⟨good, part, rest, hp, hg, hf⟩

/-- A text is a letter, or it is made of components, or the first of its parts that is no component
is what is wrong with it. -/
theorem parse_decides (text : String) :
    (∀ shape, parse text = .ok (unsized shape) ↔ text.toList = [shape.letter]) ∧
    (∀ components, parse text = .ok (sized components) ↔
      ∃ parts, parts ≠ [] ∧ text.toList = ['+'].intercalate parts ∧
        List.Forall₂ (fun part c => Spelled part c.shape c.size.toNat ∧ c.InRange)
          parts components) ∧
    (∀ e, parse text = .error e ↔
      (∀ shape : Shape, text.toList ≠ [shape.letter]) ∧ ∃ good part rest,
        text.toList = ['+'].intercalate (good ++ part :: rest) ∧
        (∀ q ∈ good ++ part :: rest, '+' ∉ q) ∧
        (∀ q ∈ good, ∃ shape value, Spelled q shape value ∧ 1 ≤ value ∧ value ≤ shape.limit) ∧
        Fault text part e) ∧
    (∀ shape : Shape, shape.limit = if shape = .run then 12 else 108) ∧
    ∀ component size max, parse text = .error (.badSize component size max) → ∃ shape : Shape,
      component = String.ofList (shape.letter :: Text.numeral size.toNat) ∧
      max = (if shape = .run then 12 else 108) ∧ ¬(1 ≤ size.toNat ∧ size.toNat ≤ max) ∧
      (Error.badSize component size max).message =
        "component " ++ Text.quote (String.ofList (shape.letter :: Text.numeral size.toNat)) ++
          " has size " ++ Text.decimal size.toNat ++ ", expected 1 to " ++
          (if shape = .run then "12" else "108") := by
  refine ⟨fun _ => parse_eq_unsized_iff, fun _ => parse_eq_sized_iff, fun _ => parse_eq_error_iff,
    fun shape => by cases shape <;> rfl, fun component size max refused => ?_⟩
  obtain ⟨-, _, _, _, -, -, -, fault⟩ := parse_eq_error_iff.1 refused
  obtain ⟨shape, rfl, rfl, outside⟩ := fault.exists_shape
  have limit : Text.decimal (if shape = .run then 12 else 108) =
      if shape = .run then "12" else "108" := by cases shape <;> decide
  refine ⟨shape, rfl, rfl, outside, ?_⟩
  rw [← limit]
  rfl

example : parse "R007+S18446744073709551616+X" =
    .error (.badSize "S18446744073709551615" 18446744073709551615 108) := by
  decide

end Phase
end Meld
