import Meld.Automaton.Basic
import Meld.Blueprint.Unsized
import Meld.Phase.Text

namespace Meld

open Blueprint

/-- The lanes of a component: one for each rank, color, or first rank of a run. -/
def Component.track (c : Component) : Track :=
  match c.shape with
  | .set => .group rankKeys c.size.toNat
  | .color => .group colorKeys c.size.toNat
  | .run => .run c.size.toNat

/-- One plan for each group of a phase. A phase without groups has a state, but no final one. -/
def Phase.plans : Phase → List Plan
  | .unsized .set => [anyGroup rankKeys]
  | .unsized .color => [anyGroup colorKeys]
  | .unsized .run => [anyRun]
  | .sized [] => [.blank]
  | .sized components => components.map fun c => c.track.plan

/-- The graph in which the cards that meet a phase lead from the start to a final state. -/
def Automaton.compile (p : Phase) : Automaton :=
  ⟨p, (layout 0 p.plans).toArray, 0, Blueprint.finals 0 p.plans⟩

def Automaton.ofText (text : String) : Except Phase.Error Automaton :=
  (Phase.parse text).map compile

end Meld
