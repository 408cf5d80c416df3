import Meld.Automaton.State
import Meld.Phase.Basic

namespace Meld

/-- A phase as a graph of states, which name each other by their place in the array. -/
structure Automaton where
  phase : Phase
  states : Array State
  start : StateId
  finals : List StateId
  deriving DecidableEq

namespace Automaton

def size (a : Automaton) : Nat := a.states.size

def state? (a : Automaton) (id : StateId) : Option State := a.states[id.toNat]?

def isFinal (a : Automaton) (id : StateId) : Bool := (a.state? id).any (·.isFinal)

/-- Where the epsilon transitions from a state lead, if at most `hops` of them do. -/
def settle (a : Automaton) (hops : Nat) (id : StateId) : Option StateId :=
  match a.state? id with
  | none => none
  | some s =>
    match s.epsilon?, hops with
    | none, _ => some id
    | some _, 0 => none
    | some next, hops + 1 => a.settle hops next

/-- The state that a card is put to: the end of the epsilon transitions from the given one. A
chain without a cycle has fewer of them than there are states. -/
def closure? (a : Automaton) (id : StateId) : Option StateId := a.settle a.size id

/-- The state after a card. There is none if the card is refused or the state is unknown. -/
def step? (a : Automaton) (id : StateId) (card : Card) : Option StateId :=
  (a.closure? id).bind fun here => (a.state? here).bind (·.step? card)

def run? (a : Automaton) (id : StateId) : List Card → Option StateId
  | [] => some id
  | card :: cards => (a.step? id card).bind fun next => a.run? next cards

theorem run?_append (a : Automaton) (id : StateId) (xs ys : List Card) :
    a.run? id (xs ++ ys) = (a.run? id xs).bind fun next => a.run? next ys := by
  induction xs generalizing id with
  | nil => rfl
  | cons x xs ih => simp [run?, ih, Option.bind_assoc]

end Automaton
end Meld
