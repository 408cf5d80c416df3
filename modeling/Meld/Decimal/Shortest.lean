import Meld.Text.Numeral

namespace Meld.Decimal

/-- A positive binary fraction, `mantissa * 2 ^ (exponent - 1074)`. The gap to the next smaller
one is half the gap to the next larger one where `narrowBelow` holds. -/
structure Binary where
  mantissa : Nat
  exponent : Nat
  narrowBelow : Bool

def Binary.ofFloat (x : Float) : Binary :=
  let bits := x.toBits.toNat
  let field := bits / 0x10000000000000 % 0x800
  let low := bits % 0x10000000000000
  if field = 0 then ⟨low, 0, false⟩
  else ⟨low + 0x10000000000000, field - 1, low = 0 && field ≠ 1⟩

/-- How many decimal places hold every quarter of a gap exactly. -/
def places : Nat := 1100

def Binary.scaled (b : Binary) (quarters : Nat) : Nat :=
  quarters * Nat.pow 2 (b.exponent + places - 1076) * Nat.pow 5 places

/-- Whether a number of units rounds to `b`; the ends do so for an even mantissa. -/
def Binary.rounds (b : Binary) (units : Nat) : Bool :=
  let low := b.scaled (4 * b.mantissa - if b.narrowBelow then 1 else 2)
  let high := b.scaled (4 * b.mantissa + 2)
  if b.mantissa % 2 = 0 then low ≤ units && units ≤ high else low < units && units < high

/-- The neighbor of `b` on the grid of multiples of `step` that rounds to `b`: the nearer of two,
of two equally near ones the even multiple. -/
def Binary.nearest? (b : Binary) (step : Nat) : Option Nat :=
  let value := b.scaled (4 * b.mantissa)
  let count := value / step
  let down := count * step
  let up := down + step
  let takesDown := value - down < up - value || (value - down = up - value && count % 2 = 0)
  match b.rounds down, b.rounds up with
  | true, true => some (if takesDown then down else up)
  | true, false => some down
  | false, true => some up
  | false, false => none

def Binary.shortest (b : Binary) : Nat :=
  let value := b.scaled (4 * b.mantissa)
  let size := (Text.numeral value).length
  ((List.range 17).findSome? fun digits => b.nearest? (Nat.pow 10 (size - (digits + 1)))).getD value

def trimZeros (digits : List Char) : List Char := (digits.reverse.dropWhile (· = '0')).reverse

/-- All digits before the point, and those after it up to the last that is not zero, but one at
least. -/
def positional (units : Nat) : List Char :=
  let digits := Text.numeral (units % Nat.pow 10 places)
  let padded := List.replicate (places - digits.length) '0' ++ digits
  let fraction := match trimZeros padded with
    | [] => ['0']
    | kept => kept
  Text.numeral (units / Nat.pow 10 places) ++ '.' :: fraction

/-- One digit before the point, which stands only if more follow, and a signed power of ten. -/
def scientific (units : Nat) : List Char :=
  let digits := Text.numeral units
  let fraction := match trimZeros (digits.drop 1) with
    | [] => []
    | kept => '.' :: kept
  let power :=
    if places < digits.length then '+' :: Text.numeral (digits.length - 1 - places)
    else '-' :: Text.numeral (places + 1 - digits.length)
  digits.take 1 ++ fraction ++ 'e' :: power

/-- Zero and the numbers from `10 ^ -5` on that are less than `10 ^ 16`. -/
def isPositional (units : Nat) : Bool :=
  units = 0 || (Nat.pow 10 (places - 5) ≤ units && units < Nat.pow 10 (places + 16))

/-- The shortest text that reads back as `x`. -/
def text (x : Float) : String :=
  let units := (Binary.ofFloat x).shortest
  let sign := if x.toBits.toNat < 0x8000000000000000 then [] else ['-']
  String.ofList (sign ++ if isPositional units then positional units else scientific units)

end Meld.Decimal
