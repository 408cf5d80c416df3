import Meld.Blueprint.Compile
import Meld.Event
import Std.Data.HashMap

namespace Meld

/-- A compiled phase that is shared. Two handles with one serial number stand for one object. -/
structure Handle where
  serial : Nat
  automaton : Automaton

structure Memo where
  entries : Std.HashMap String Handle
  nextSerial : Nat

namespace Memo

def empty : Memo := ⟨∅, 0⟩

def size (m : Memo) : Nat := m.entries.size

def isEmpty (m : Memo) : Bool := m.entries.isEmpty

/-- The phase of the given text, which is compiled unless it is at hand. Bad texts are not kept. -/
def get (m : Memo) (text : String) : Except Phase.Error Handle × Memo :=
  match m.entries[text]? with
  | some handle => (.ok handle, m)
  | none =>
    match Automaton.ofText text with
    | .error error => (.error error, m)
    | .ok a =>
      let handle : Handle := ⟨m.nextSerial, a⟩
      (.ok handle, ⟨m.entries.insert text handle, m.nextSerial + 1⟩)

def getEvents (m : Memo) (text : String) : List Event :=
  if m.entries.contains text then []
  else .memoMiss text ::
    match Automaton.ofText text with
    | .ok a => [a.compileEvent]
    | .error _ => []

/-- Handles given out before stay different from those to come. -/
def clear (m : Memo) : Memo := { m with entries := ∅ }

end Memo
end Meld
