import Meld.Automaton.Reach
import Meld.Phase.Text

namespace Meld

def Guard.label (g : Guard) : String :=
  match g with
  | epsilon => "[style=dashed]"
  | card c => "[label=\"" ++ c.text ++ "\"]"
  | rank r => "[label=\"" ++ (r.value?.map Text.decimal).getD "W" ++ "\"]"
  | color c => "[label=\"" ++ c.letter.toString ++ "\"]"
  | otherwise => "[label=\"*\"]"

namespace Automaton

def nodeName (id : StateId) : String := "N" ++ Text.decimal id.toNat

def nodeStyle (a : Automaton) (id : StateId) : String :=
  if id = a.start then "[label=\"\", shape=box, color=blue]"
  else if a.isFinal id then "[label=\"\", shape=diamond, color=green]"
  else "[label=\"\"]"

def nodeLine (a : Automaton) (id : StateId) : String :=
  "  " ++ nodeName id ++ " " ++ a.nodeStyle id ++ ";"

def edgeLine (id : StateId) (t : Transition) : String :=
  "  " ++ nodeName id ++ " -> " ++ nodeName t.target ++ " " ++ t.guard.label ++ ";"

def stateLines (a : Automaton) (id : StateId) : List String :=
  a.nodeLine id :: (((a.state? id).map (·.transitions)).getD []).map (edgeLine id)

def diagramLines (a : Automaton) : List String :=
  ["digraph phase \x7b", "  label=\"" ++ a.phase.text ++ "\";"]
    ++ a.discover.flatMap a.stateLines ++ ["\x7d"]

def diagram (a : Automaton) : String := String.join (a.diagramLines.map (· ++ "\n"))

end Automaton
end Meld
