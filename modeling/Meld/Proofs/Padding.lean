import Meld.Blueprint.Compile
import Meld.Proofs.Grammar

namespace Meld

open Automaton

namespace Component

variable {cs : List Char} {shape : Shape} {value : Nat}

/-- A letter and what follows it, without the zeros in front of that. -/
def unpad : List Char → List Char
  | [] => []
  | letter :: digits => letter :: digits.dropWhile (· = '0')

theorem unpad_of_spelled (h : Spelled cs shape value) (pos : 0 < value) :
    unpad cs = shape.letter :: Text.numeral value := by
  obtain ⟨digits, rfl, hne, hd, rfl⟩ := h
  rw [unpad, Text.numeral_numeralValue_of_pos (Text.isNumeral_iff.2 ⟨hne, hd⟩) pos]

end Component

namespace Phase

open Component

variable {text : String} {p q : Phase}

def Made : Phase → Prop
  | unsized _ => True
  | sized components => components ≠ [] ∧
      ∀ c ∈ components, ∃ shape size, Component.make shape size = .ok c

theorem made_iff_legal : p.Made ↔ p.Legal := by
  cases p with
  | unsized shape => exact Iff.rfl
  | sized components =>
    refine and_congr_right fun _ => forall₂_congr fun c _ => ?_
    constructor
    · rintro ⟨shape, size, hc⟩
      exact (make_eq_ok_iff.1 hc).2
    · exact fun hc => ⟨c.shape, c.size, make_eq_ok_iff.2 ⟨rfl, hc⟩⟩

/-- A text without the zeros in front of its sizes. -/
def unpad (text : String) : String :=
  String.ofList (['+'].intercalate ((text.toList.splitOn '+').map Component.unpad))

theorem parse_text (h : p.Legal) : parse p.text = .ok p := by
  cases p with
  | unsized shape => exact parse_letter String.toList_ofList
  | sized components =>
    refine parse_eq_sized_iff.2 ⟨components.map Component.chars, ?_, String.toList_ofList, ?_⟩
    · rw [Ne, List.map_eq_nil_iff]
      exact h.1
    · rw [List.forall₂_map_left_iff, List.forall₂_same]
      exact fun c hc => ⟨spelled_chars c, h.2 c hc⟩

/-- What is read is written as it was but for the padding. -/
theorem text_eq_unpad (h : parse text = .ok p) : p.text = unpad text := by
  apply congrArg String.ofList
  cases p with
  | unsized shape =>
    have plus : shape.letter ≠ '+' := by cases shape <;> decide
    rw [parse_eq_unsized_iff.1 h, splitOn_singleton plus]
    rfl
  | sized components =>
    obtain ⟨parts, hne, he, hf⟩ := parse_eq_sized_iff.1 h
    have plus : ∀ part ∈ parts, '+' ∉ part := fun part hp => by
      obtain ⟨c, -, hc⟩ := exists_mem_of_forall₂ hf.flip hp
      exact hc.1.plus_not_mem
    have unpadded : components.map Component.chars = parts.map Component.unpad := by
      rw [← List.forall₂_eq_eq_eq, List.forall₂_map_left_iff, List.forall₂_map_right_iff]
      exact hf.flip.imp fun c part hc => (unpad_of_spelled hc.1 hc.2.1).symm
    rw [splitOn_eq_iff.2 ⟨hne, he, plus⟩, ← unpadded]
    rfl

/-- A phase is what its text is read as, so different phases have different texts. Any text that is
read at all differs from that of its phase in padding only, which makes no difference to what is
read or compiled. -/
theorem text_canonical :
    (∀ p : Phase, p.Made → parse p.text = .ok p) ∧
    (∀ p q : Phase, p.Made → q.Made → p.text = q.text → p = q) ∧
    ∀ text p, parse text = .ok p →
      p.text = unpad text ∧ parse p.text = .ok p ∧ unpad p.text = p.text ∧
      ofText text = .ok (compile p) ∧ ofText p.text = .ok (compile p) := by
  have read (p : Phase) (h : p.Made) : parse p.text = .ok p := parse_text (made_iff_legal.1 h)
  refine ⟨read, fun p q hp hq he => ?_, fun text p h => ?_⟩
  · have hr := read p hp
    rw [he, read q hq] at hr
    exact (Except.ok.inj hr).symm
  · have again := parse_text (legal_of_parse h)
    refine ⟨text_eq_unpad h, again, (text_eq_unpad again).symm, ?_, ?_⟩
    · rw [ofText, h]
      rfl
    · rw [ofText, again]
      rfl

/-- The first size is padded, and the second ends in a zero that stays. -/
theorem text_canonical_set_color :
    parse "S003+C10" = .ok (.sized [⟨.set, 3⟩, ⟨.color, 10⟩]) ∧
    (Phase.sized [⟨.set, 3⟩, ⟨.color, 10⟩]).Made ∧
    parse "S3+C10" = .ok (.sized [⟨.set, 3⟩, ⟨.color, 10⟩]) ∧
    unpad "S003+C10" = "S3+C10" ∧
    ofText "S003+C10" = .ok (compile (.sized [⟨.set, 3⟩, ⟨.color, 10⟩])) := by
  have parsed : parse "S003+C10" = .ok (.sized [⟨.set, 3⟩, ⟨.color, 10⟩]) := by decide
  have made := made_iff_legal.2 (legal_of_parse parsed)
  obtain ⟨read, -, padded⟩ := text_canonical
  obtain ⟨shown, -, -, compiled, -⟩ := padded _ _ parsed
  exact ⟨parsed, made, read _ made, shown.symm, compiled⟩

end Phase
end Meld
