import Meld.Automaton.Basic

namespace Meld

inductive Unsound where
  | start
  | final
  | target
  | epsilonCycle
  deriving DecidableEq, Repr

def Unsound.message : Unsound → String
  | start => "start state out of range"
  | final => "final state out of range"
  | target => "transition target out of range"
  | epsilonCycle => "epsilon cycle"

namespace Automaton

def has (a : Automaton) (id : StateId) : Bool := id.toNat < a.size

def hasTargets (a : Automaton) : Bool :=
  a.states.toList.all fun s => s.transitions.all fun t => a.has t.target

def settles (a : Automaton) : Bool :=
  (List.range a.size).all fun i => (a.closure? (UInt32.ofNat i)).isSome

def checkSound (a : Automaton) : Except Unsound Unit :=
  if !a.has a.start then .error .start
  else if !a.finals.all a.has then .error .final
  else if !a.hasTargets then .error .target
  else if !a.settles then .error .epsilonCycle
  else .ok ()

end Automaton
end Meld
