import Meld.Phase.Basic

namespace Meld

/-- A value too large for a machine word counts as the largest one. -/
def readSize (digits : List Char) : UInt64 :=
  UInt64.ofNat (min (Text.numeralValue digits) (UInt64.size - 1))

/-- A letter and a numeral; `whole` is the text to report when it is not. -/
def Component.parse (whole : String) : List Char → Except Phase.Error Component
  | letter :: digits =>
    match Shape.ofLetter? letter with
    | some shape =>
      if Text.isNumeral digits then make shape (readSize digits) else .error (.unrecognized whole)
    | none => .error (.unrecognized whole)
  | [] => .error (.unrecognized whole)

namespace Phase

def chars : Phase → List Char
  | unsized shape => [shape.letter]
  | sized components => ['+'].intercalate (components.map Component.chars)

def text (p : Phase) : String := String.ofList p.chars

/-- A single character is a shape. Any other text is made of components, joined by plus signs, of
which the leftmost bad one decides the error. -/
def parse (text : String) : Except Phase.Error Phase :=
  match text.toList with
  | [letter] =>
    match Shape.ofLetter? letter with
    | some shape => .ok (unsized shape)
    | none => .error (.unrecognized text)
  | cs => ((cs.splitOn '+').mapM (Component.parse text)).map sized

end Phase
end Meld
