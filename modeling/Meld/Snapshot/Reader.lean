import Meld.Card.Token
import Meld.Text.Utf8

namespace Meld.Snapshot

inductive Width where
  | word32
  | word64
  | size
  | word128
  | reserved
  deriving DecidableEq, Repr

def Width.name : Width → String
  | word32 => "U32"
  | word64 => "U64"
  | size => "Usize"
  | word128 => "U128"
  | reserved => "Reserved"

inductive ReadError where
  | unexpectedEnd (missing : Nat)
  | wrongInteger (expected found : Width)
  | badBoolean (byte : UInt8)
  | unknownVariant (index count : Nat)
  | badCard (error : Card.Error)
  | badText (fault : Text.Utf8Fault)
  deriving DecidableEq, Repr

def ReadError.message : ReadError → String
  | unexpectedEnd missing => "UnexpectedEnd \x7b additional: " ++ Text.decimal missing ++ " \x7d"
  | wrongInteger expected found =>
    "InvalidIntegerType \x7b expected: " ++ expected.name ++ ", found: " ++ found.name ++ " \x7d"
  | badBoolean byte => "InvalidBooleanValue(" ++ Text.decimal byte.toNat ++ ")"
  | unknownVariant index count =>
    "OtherString(" ++ Text.quote ("invalid value: integer `" ++ Text.decimal index
      ++ "`, expected variant index 0 <= i < " ++ Text.decimal count) ++ ")"
  | badCard error => "OtherString(" ++ Text.quote error.message ++ ")"
  | badText fault =>
    let count := (fault.wrongBytes.map fun n => "Some(" ++ Text.decimal n ++ ")").getD "None"
    "Utf8 \x7b inner: Utf8Error \x7b valid_up_to: " ++ Text.decimal fault.validUpTo
      ++ ", error_len: " ++ count ++ " \x7d \x7d"

abbrev Reader := StateT (List UInt8) (Except ReadError)

/-- Where the bytes do not suffice, those that are missing are counted. -/
def readBytes : Nat → Reader (List UInt8)
  | 0, bytes => .ok ([], bytes)
  | n + 1, [] => .error (.unexpectedEnd (n + 1))
  | n + 1, b :: bytes => (readBytes n bytes).map fun (taken, rest) => (b :: taken, rest)

def readByte : Reader UInt8
  | [] => .error (.unexpectedEnd 1)
  | b :: bytes => .ok (b, bytes)

def readTimes {α : Type} (r : Reader α) : Nat → Reader (List α)
  | 0 => pure []
  | n + 1 => do
    let x ← r
    let xs ← readTimes r n
    pure (x :: xs)

end Meld.Snapshot
