import Meld.Automaton.Soundness
import Meld.Snapshot.Format

namespace Meld

inductive Snapshot.Error where
  | decode (error : Snapshot.ReadError)
  | corrupt (reason : Unsound)
  deriving DecidableEq, Repr

def Snapshot.Error.message : Snapshot.Error → String
  | decode error => "failed to decode automaton: " ++ error.message
  | corrupt reason => "corrupt automaton snapshot: " ++ reason.message

namespace Automaton

/-- What `ofBytes` reads back. The graph is written as it is, sound or not. -/
def toBytes (a : Automaton) : List UInt8 := Snapshot.write a

/-- Restores a graph that can be walked. Bytes after the snapshot are left alone. -/
def ofBytes (bytes : List UInt8) : Except Snapshot.Error Automaton :=
  match Snapshot.read bytes with
  | .error error => .error (.decode error)
  | .ok (a, _) =>
    match a.checkSound with
    | .error reason => .error (.corrupt reason)
    | .ok () => .ok a

end Automaton
end Meld
