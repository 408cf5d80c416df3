import Meld.Text.Utf8

namespace Meld.Text

/-- Where a terminal stands in its input: in plain text, or inside a sequence that it obeys and
does not show. -/
inductive TerminalMode where
  | plain
  | escape
  | escapeIntermediate
  /-- A control sequence, up to its final character. -/
  | control
  /-- A command to the operating system, up to a bell. -/
  | command
  | deviceEntry
  | deviceParameters
  | deviceIntermediates
  /-- A string for a device, up to a string terminator. -/
  | string
  deriving DecidableEq, Repr

def isSpacing (c : Char) : Bool := c = '\t' || c = '\n' || c = '\x0c' || c = '\r'

def isBetween (low high c : Char) : Bool := low.toNat ≤ c.toNat && c.toNat ≤ high.toNat

/-- The string terminator is the byte `0x9C`, in whatever character it stands. -/
def endsString (c : Char) : Bool := 0x80 ≤ c.toNat && (encodeUtf8 [c]).contains 0x9C

namespace TerminalMode

/-- Spacing is shown, and cuts short every sequence that carries no string. Other controls are
never shown. -/
def shows (mode : TerminalMode) (c : Char) : Bool :=
  match mode with
  | plain => isSpacing c || (' '.toNat ≤ c.toNat && c ≠ '\x7f')
  | escape | escapeIntermediate | control => isSpacing c
  | _ => false

def afterEscape (c : Char) : TerminalMode :=
  if c = '[' then control
  else if c = ']' then command
  else if c = 'P' then deviceEntry
  else if c = 'X' || c = '^' || c = '_' then string
  else if isBetween ' ' '/' c then escapeIntermediate
  else if isBetween '0' '~' c then plain
  else escape

def next (mode : TerminalMode) (c : Char) : TerminalMode :=
  if c = '\x1b' then escape
  else if c = '\x18' || c = '\x1a' then plain
  else match mode with
  | plain => plain
  | escape => afterEscape c
  | escapeIntermediate => if isBetween '0' '~' c then plain else escapeIntermediate
  | control => if isBetween '@' '~' c then plain else control
  | command => if c = '\x07' then plain else command
  | deviceEntry =>
    if isBetween '@' '~' c then string
    else if isBetween '0' '?' c then deviceParameters
    else if isBetween ' ' '/' c then deviceIntermediates
    else deviceEntry
  | deviceParameters =>
    if isBetween '<' '~' c then string
    else if isBetween ' ' '/' c then deviceIntermediates
    else deviceParameters
  | deviceIntermediates => if isBetween '0' '~' c then string else deviceIntermediates
  | string => if endsString c then plain else string

def visible : TerminalMode → List Char → List Char
  | _, [] => []
  | mode, c :: cs =>
    if mode.shows c then c :: visible plain cs else visible (mode.next c) cs

end TerminalMode

def visible (s : String) : String := String.ofList (TerminalMode.plain.visible s.toList)

end Meld.Text
