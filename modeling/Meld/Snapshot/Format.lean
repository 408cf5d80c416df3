import Meld.Automaton.Basic
import Meld.Snapshot.Integer

namespace Meld.Snapshot

def writeList {α : Type} (write : α → List UInt8) (xs : List α) : List UInt8 :=
  writeInteger xs.length ++ xs.flatMap write

def readList {α : Type} (read : Reader α) : Reader (List α) := do
  readTimes read (← readInteger .size)

def readChoice {α : Type} (choices : List (Reader α)) : Reader α := do
  let index ← readInteger .word32
  match choices[index]? with
  | some read => read
  | none => throw (.unknownVariant index choices.length)

def writeBoolean (b : Bool) : List UInt8 := [if b then 1 else 0]

def readBoolean : Reader Bool := do
  let byte ← readByte
  if byte = 0 then pure false else if byte = 1 then pure true else throw (.badBoolean byte)

def writeText (cs : List Char) : List UInt8 :=
  let bytes := Text.encodeUtf8 cs
  writeInteger bytes.length ++ bytes

def readText : Reader (List Char) := do
  let bytes ← readBytes (← readInteger .word64)
  match Text.decodeUtf8 bytes with
  | .ok cs => pure cs
  | .error fault => throw (.badText fault)

def readCard : Reader Card := do
  match Card.parse (String.ofList (← readText)) with
  | .ok card => pure card
  | .error error => throw (.badCard error)

def writeShape (s : Shape) : List UInt8 := writeInteger s.index

def readShape : Reader Shape := readChoice (Shape.all.map pure)

def writeComponent (c : Component) : List UInt8 := writeShape c.shape ++ writeInteger c.size.toNat

/-- Any size is taken, also one that no text of a phase gives. -/
def readComponent : Reader Component := do
  let shape ← readShape
  let size ← readInteger .word64
  pure ⟨shape, UInt64.ofNat size⟩

def writePhase : Phase → List UInt8
  | .unsized shape => writeInteger 0 ++ writeShape shape
  | .sized components => writeInteger 1 ++ writeList writeComponent components

def readPhase : Reader Phase :=
  readChoice [.unsized <$> readShape, .sized <$> readList readComponent]

def writeId (id : StateId) : List UInt8 := writeInteger id.toNat

def readId : Reader StateId := UInt32.ofNat <$> readInteger .word32

def writeGuard (g : Guard) : List UInt8 :=
  writeInteger g.index ++
    match g with
    | .card c => writeText c.chars
    | .rank r => writeInteger r.index
    | .color c => writeInteger c.index
    | _ => []

def readGuard : Reader Guard :=
  readChoice [pure .epsilon, .card <$> readCard, .rank <$> readChoice (Rank.all.map pure),
    .color <$> readChoice (Color.all.map pure), pure .otherwise]

def writeTransition (t : Transition) : List UInt8 := writeGuard t.guard ++ writeId t.target

def readTransition : Reader Transition := do
  let guard ← readGuard
  let target ← readId
  pure ⟨guard, target⟩

def writeState (s : State) : List UInt8 :=
  writeBoolean s.isFinal ++ writeList writeTransition s.transitions

def readState : Reader State := do
  let isFinal ← readBoolean
  let transitions ← readList readTransition
  pure ⟨isFinal, transitions⟩

def write (a : Automaton) : List UInt8 :=
  writePhase a.phase ++ writeList writeState a.states.toList ++ writeId a.start
    ++ writeList writeId a.finals

def read : Reader Automaton := do
  let phase ← readPhase
  let states ← readList readState
  let start ← readId
  let finals ← readList readId
  pure ⟨phase, states.toArray, start, finals⟩

end Meld.Snapshot
