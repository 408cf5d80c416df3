import Meld.Automaton.Basic
import Std.Data.HashSet

namespace Meld.Automaton

def targets (a : Automaton) (id : StateId) : List StateId :=
  ((a.state? id).map fun s => s.transitions.map (·.target)).getD []

theorem targets_eq {a : Automaton} {id : StateId} {s : State} (h : a.state? id = some s) :
    a.targets id = s.transitions.map (·.target) := by
  simp only [targets, h, Option.map_some, Option.getD_some]

/-- The states not seen before, each once, and all that have been seen then. -/
def unseen : List StateId → Std.HashSet StateId → List StateId × Std.HashSet StateId
  | [], seen => ([], seen)
  | id :: ids, seen =>
    if seen.contains id then unseen ids seen
    else
      let (new, seen) := unseen ids (seen.insert id)
      (id :: new, seen)

def discoverFrom (a : Automaton) : Nat → List StateId → Std.HashSet StateId → List StateId
  | 0, _, _ => []
  | distances + 1, level, seen =>
    if level.isEmpty then []
    else
      let (next, seen) := unseen (level.flatMap a.targets) seen
      level ++ a.discoverFrom distances next seen

/-- The states that transitions lead to from the start, in breadth-first order. -/
def discover (a : Automaton) : List StateId := a.discoverFrom a.size [a.start] {a.start}

inductive Reachable (a : Automaton) : StateId → Prop where
  | start : Reachable a a.start
  | step {id next : StateId} : Reachable a id → next ∈ a.targets id → Reachable a next

end Meld.Automaton
