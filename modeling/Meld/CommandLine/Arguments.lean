import Meld.Text.Visible

namespace Meld.CommandLine

inductive Slot where
  | phase
  | deck
  | diagram
  deriving DecidableEq, Repr

def Slot.usage : Slot → String
  | phase => "--phase <PHASE>"
  | deck => "--deck <DECK>..."
  | diagram => "--dot <DOT>"

inductive UsageError where
  | missingValue (slot : Slot)
  | repeated (usage : String)
  | unexpectedArgument (text : String)
  | unexpectedValue (value usage : String)
  deriving DecidableEq, Repr

/-- A word of the call is told as a terminal shows it. -/
def UsageError.message : UsageError → String
  | missingValue slot => "a value is required for '" ++ slot.usage ++ "' but none was supplied"
  | repeated usage => "the argument '" ++ usage ++ "' cannot be used multiple times"
  | unexpectedArgument text => "unexpected argument '" ++ Text.visible text ++ "' found"
  | unexpectedValue value usage =>
    "unexpected value '" ++ Text.visible value ++ "' for '" ++ usage
      ++ "' found; no more were expected"

structure Arguments where
  phase? : Option String
  deck : List String
  subset : Bool
  diagram? : Option String
  deriving DecidableEq, Repr

inductive Request where
  | help
  | check (arguments : Arguments)
  deriving DecidableEq, Repr

def Arguments.give (a : Arguments) (slot : Slot) (values : List String) :
    Except UsageError Arguments :=
  match slot, values with
  | slot, [] => .error (.missingValue slot)
  | .deck, values => .ok { a with deck := a.deck ++ values }
  | .phase, value :: _ =>
    if a.phase?.isSome then .error (.repeated Slot.phase.usage)
    else .ok { a with phase? := some value }
  | .diagram, value :: _ =>
    if a.diagram?.isSome then .error (.repeated Slot.diagram.usage)
    else if value.isEmpty then .error (.missingValue .diagram)
    else .ok { a with diagram? := some value }

def Arguments.setSubset (a : Arguments) : Except UsageError Arguments :=
  if a.subset then .error (.repeated "--subset") else .ok { a with subset := true }

/-- An option that may get its values from the words to come. They are kept until the next option
is known, or the end. -/
structure Waiting where
  slot : Slot
  values : List String

/-- Only the deck takes more than one value. -/
def Waiting.isOpen (w : Waiting) : Bool := w.slot = .deck || w.values.isEmpty

structure Intake where
  arguments : Arguments
  waiting? : Option Waiting

namespace Intake

def empty : Intake := ⟨⟨none, [], false, none⟩, none⟩

def settle (i : Intake) : Except UsageError Arguments :=
  match i.waiting? with
  | none => .ok i.arguments
  | some w => i.arguments.give w.slot w.values

def option (i : Intake) (slot : Slot) (value? : Option String) : Except UsageError Intake := do
  let a ← i.settle
  match value? with
  | none => pure ⟨a, some ⟨slot, []⟩⟩
  | some value => pure ⟨← a.give slot [value], none⟩

def subset (i : Intake) : Except UsageError Intake := do
  let a ← i.settle
  pure ⟨← a.setSubset, none⟩

def value (i : Intake) (text : String) : Except UsageError Intake :=
  match i.waiting? with
  | some w =>
    if w.isOpen then .ok ⟨i.arguments, some ⟨w.slot, w.values ++ [text]⟩⟩
    else .error (.unexpectedArgument text)
  | none => .error (.unexpectedArgument text)

end Intake

inductive Word where
  /-- The end of all options. -/
  | escape
  | long (name : String) (value? : Option String)
  | short (letter : Char) (rest : List Char)
  | plain (text : String)
  deriving DecidableEq, Repr

/-- A lone hyphen is no option. The name of a long one ends at the first equality sign. -/
def Word.ofText (text : String) : Word :=
  match text.toList with
  | ['-', '-'] => .escape
  | '-' :: '-' :: cs =>
    let value? := match cs.dropWhile (· ≠ '=') with
      | [] => none
      | _ :: value => some (String.ofList value)
    .long (String.ofList (cs.takeWhile (· ≠ '='))) value?
  | '-' :: letter :: rest => .short letter rest
  | _ => .plain text

def attached? : List Char → Option String
  | [] => none
  | '=' :: value => some (String.ofList value)
  | value => some (String.ofList value)

def Intake.word (i : Intake) (w : Word) : Except UsageError (Option Intake) :=
  match w with
  | .escape => .ok (some i)
  | .plain text => some <$> i.value text
  | .long "phase" value? => some <$> i.option .phase value?
  | .long "deck" value? => some <$> i.option .deck value?
  | .long "dot" value? => some <$> i.option .diagram value?
  | .long "subset" none => some <$> i.subset
  | .long "help" none => i.settle.map fun _ => none
  | .long "subset" (some value) => .error (.unexpectedValue value "--subset")
  | .long "help" (some value) => .error (.unexpectedValue value "--help")
  | .long name _ => .error (.unexpectedArgument ("--" ++ name))
  | .short 'p' rest => some <$> i.option .phase (attached? rest)
  | .short 'd' rest => some <$> i.option .deck (attached? rest)
  | .short 'h' _ => i.settle.map fun _ => none
  | .short letter _ => .error (.unexpectedArgument (String.ofList ['-', letter]))

/-- Nothing may follow the end of all options. -/
def Intake.readAll (i : Intake) : List String → Except UsageError Request
  | [] => i.settle.map .check
  | text :: texts =>
    match Word.ofText text, texts with
    | .escape, next :: _ => .error (.unexpectedArgument next)
    | word, texts =>
      match i.word word with
      | .error error => .error error
      | .ok none => .ok .help
      | .ok (some next) => next.readAll texts

def Request.parse (texts : List String) : Except UsageError Request := Intake.empty.readAll texts

end Meld.CommandLine
