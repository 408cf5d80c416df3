import Meld.Automaton.Diagram
import Meld.Automaton.Search
import Meld.Automaton.Walk
import Meld.Blueprint.Compile
import Meld.Card.Hand
import Meld.CommandLine.Arguments

namespace Meld.CommandLine

def helpLines : List String :=
  ["Check whether a sequence of cards satisfies a phase.",
    "",
    "Usage: phasecheck [OPTIONS]",
    "",
    "Options:",
    "  -p, --phase <PHASE>   Phase descriptor, e.g. S3 or C3+R4",
    "  -d, --deck <DECK>...  Cards to check, in order",
    "      --subset          Search for any order-preserving subset of the cards instead of the "
      ++ "full sequence",
    "      --dot <DOT>       Write the compiled automaton as a Graphviz file",
    "  -h, --help            Print help",
    "",
    "Phases must be in the format ([CSR]<n>+)*[CSR]<n>, or a bare S, C or R.",
    "The + is literal, not a repetition operator.",
    "Cards must be [RBGY]1 through [RBGY]12, W or S."]

def help : String := String.join (helpLines.map (· ++ "\n"))

inductive Refusal where
  | usage (error : UsageError)
  | noPhase
  | noDeck
  | badPhase (error : Phase.Error)
  | badCard (error : Card.Error)
  deriving DecidableEq, Repr

def Refusal.message : Refusal → String
  | usage error => error.message
  | noPhase => "phase has not been set"
  | noDeck => "deck has not been provided"
  | badPhase error => error.message
  | badCard error => error.message

structure File where
  path : String
  content : String
  deriving DecidableEq, Repr

/-- What is printed, unless a search fails, and a file to be written before. -/
structure Report where
  output : Except Phase.CountError String
  file? : Option File
  deriving Repr

def verdict (accepted : Bool) : String := if accepted then "true\n" else "false\n"

def subsetText (a : Automaton) (hand : List Card) : Except Phase.CountError String :=
  (a.pick? hand).map fun
    | none => verdict false
    | some positions => verdict true ++ Card.handText (positions.filterMap (hand[·]?)) ++ "\n"

/-- The values of the deck are read as one text, with a blank between them. -/
def Arguments.check (args : Arguments) : Except Refusal Report :=
  match args.phase? with
  | none => .error .noPhase
  | some text =>
    if args.deck.isEmpty then .error .noDeck
    else match Automaton.ofText text with
    | .error error => .error (.badPhase error)
    | .ok a =>
      match Card.parseHand (" ".intercalate args.deck) with
      | .error error => .error (.badCard error)
      | .ok hand =>
        let output := if args.subset then subsetText a hand else .ok (verdict (a.accepts hand))
        .ok ⟨output, args.diagram?.map fun path => ⟨path, a.diagram⟩⟩

structure Answer where
  exitCode : Nat
  output : String
  error : String
  file? : Option File
  deriving DecidableEq, Repr

def Answer.refuse (reason : Refusal) : Answer := ⟨1, "", "Error: " ++ reason.message ++ "\n", none⟩

/-- Without any words the help is shown, and an empty line after it. A search that fails ends the
program at once, when the file has been written. -/
def answer (texts : List String) : Answer :=
  if texts.isEmpty then ⟨0, help ++ "\n", "", none⟩
  else match Request.parse texts with
  | .error error => .refuse (.usage error)
  | .ok .help => ⟨0, help, "", none⟩
  | .ok (.check args) =>
    match args.check with
    | .error reason => .refuse reason
    | .ok report =>
      match report.output with
      | .error error => ⟨101, "", error.message ++ "\n", report.file?⟩
      | .ok output => ⟨0, output, "", report.file?⟩

end Meld.CommandLine
