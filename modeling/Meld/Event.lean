import Meld.Automaton.Search
import Meld.Phase.Text

namespace Meld

inductive Level where
  | warn
  | debug
  | trace
  deriving DecidableEq, Repr

inductive Event where
  | memoMiss (text : String)
  | compiled (phase : Phase) (states finals : Nat)
  | handCut (cards : Nat)
  | searched (phase : Phase) (accepted : Bool) (explored : Nat)
  deriving DecidableEq, Repr

namespace Event

def level : Event → Level
  | memoMiss _ => .debug
  | compiled .. => .debug
  | handCut _ => .warn
  | searched .. => .trace

def message : Event → String
  | memoMiss text => "phase cache miss for " ++ text
  | compiled phase states finals =>
    "compiled phase " ++ phase.text ++ " into " ++ Text.decimal states ++ " states ("
      ++ Text.decimal finals ++ " final)"
  | handCut cards =>
    "hand of " ++ Text.decimal cards ++ " cards exceeds " ++ Text.decimal Automaton.handLimit
      ++ ", searching the first " ++ Text.decimal Automaton.handLimit ++ " only"
  | searched phase accepted explored =>
    "phase " ++ phase.text ++ (if accepted then " accepted" else " rejected")
      ++ " after exploring " ++ Text.decimal explored ++ " subsets"

end Event

namespace Automaton

def compileEvent (a : Automaton) : Event := .compiled a.phase a.size a.finals.length

/-- What a search puts on record. One that is not made leaves no trace, but a hand is cut
before. -/
def searchEvents (a : Automaton) (hand : List Card) : List Event :=
  (if handLimit < hand.length then [.handCut hand.length] else []) ++
    match a.search? hand with
    | .ok (some search) => [.searched a.phase search.positions?.isSome search.explored]
    | _ => []

end Automaton
end Meld
