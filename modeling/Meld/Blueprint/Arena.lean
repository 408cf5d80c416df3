import Meld.Blueprint.Compile

namespace Meld.Blueprint

/-- The states that have been built, each named by how many came before it. -/
abbrev Arena := Array State

/-- A step of building. There is no result where a handle names no state or a list has no such
position. -/
abbrev Building := StateT Arena Option

/-- Where a group that has been built starts, and the states that complete it. -/
structure Fragment where
  start : StateId
  finals : List StateId
  deriving DecidableEq, Repr

namespace Arena

def alloc : Building StateId := fun arena => some (UInt32.ofNat arena.size, arena.push .plain)

def allocChain (count : Nat) : Building (List StateId) := (List.range count).mapM fun _ => alloc

def change (id : StateId) (f : State → State) : Building Unit := fun arena =>
  if id.toNat < arena.size then some ((), arena.modify id.toNat f) else none

def put (source : StateId) (guard : Guard) (target : StateId) : Building Unit :=
  change source (·.insert guard target)

def markFinal (id : StateId) : Building Unit := change id Exit.finish.apply

def nth {α : Type} (xs : List α) (pos : Nat) : Building α := fun arena => xs[pos]?.map (·, arena)

def lead (source : StateId) (guard : Guard) (chain : List StateId) (pos : Nat) :
    Building Unit := do
  put source guard (← nth chain pos)

def link (first : List StateId) (pos : Nat) (guard : Guard) (second : List StateId)
    (next : Nat) : Building Unit := do
  lead (← nth first pos) guard second next

/-- The chain of a key leads on from one position to another, and wild cards give way to it. -/
def share (wilds chain : List StateId) (key : Guard) (pos next : Nat) : Building Unit := do
  link chain pos key chain next
  link chain pos wild chain next
  link wilds pos key chain next

def keyChain (start : StateId) (wilds : List StateId) (size : Nat) (key : Guard) :
    Building StateId := do
  let chain ← allocChain size
  lead start key chain 0
  (List.range (size - 1)).forM fun pos => share wilds chain key pos (pos + 1)
  share wilds chain key (size - 1) (size - 1)
  nth chain (size - 1)

/-- `size` cards or more that all pass one of `keys`. There is a chain for each key and one of wild
cards, and the ends of all of them loop. -/
def group (keys : List Guard) (size : Nat) : Building Fragment := do
  let start ← alloc
  let wilds ← allocChain size
  lead start wild wilds 0
  (List.range (size - 1)).forM fun pos => link wilds pos wild wilds (pos + 1)
  link wilds (size - 1) wild wilds (size - 1)
  let ends ← keys.mapM (keyChain start wilds size)
  return ⟨start, ends ++ [← nth wilds (size - 1)]⟩

def rankChain (start : StateId) (size : Nat) : List StateId × Nat → Building Unit
  | (chain, first) => do
    lead start (← nth rankKeys first) chain 0
    (List.range (size - 1)).forM fun pos => do
      let rank ← nth rankKeys (first + (pos + 1))
      link chain pos rank chain (pos + 1)
      link chain pos wild chain (pos + 1)

def giveWay (wilds : List StateId) (pos : Nat) : List StateId × Nat → Building Unit
  | (chain, first) => do
    link wilds pos (← nth rankKeys (first + (pos + 1))) chain (pos + 1)

def wildRow (wilds : List StateId) (chains : List (List StateId)) (pos : Nat) :
    Building Unit := do
  link wilds pos wild wilds (pos + 1)
  chains.zipIdx.forM (giveWay wilds pos)

/-- `size` cards of consecutive ranks. There is a chain for each first rank that leaves room for
all, and one of wild cards. -/
def run (size : Nat) : Building Fragment := do
  guard (size ≤ rankKeys.length)
  let start ← alloc
  let chains ← (List.range (rankKeys.length - size + 1)).mapM fun _ => allocChain size
  chains.zipIdx.forM (rankChain start size)
  let wilds ← allocChain size
  lead start wild wilds 0
  (List.range (size - 1)).forM (wildRow wilds chains)
  let ends ← chains.mapM fun chain => nth chain (size - 1)
  return ⟨start, ends ++ [← nth wilds (size - 1)]⟩

def anyGroup (keys : List Guard) : Building Fragment := do
  let start ← alloc
  let wilds ← alloc
  put start wild wilds
  put wilds wild wilds
  let ends ← keys.mapM fun key => do
    let here ← alloc
    put start key here
    put wilds key here
    put here key here
    put here wild here
    return here
  return ⟨start, ends ++ [wilds]⟩

def anyRun : Building Fragment := do
  let start ← alloc
  let ranks ← allocChain rankKeys.length
  rankKeys.zipIdx.forM fun (rank, pos) => do
    lead start rank ranks pos
    if 0 < pos then
      link ranks (pos - 1) rank ranks pos
      link ranks (pos - 1) wild ranks pos
  let wilds ← allocChain rankKeys.length
  lead start wild wilds 0
  (List.range rankKeys.length).forM fun pos => do
    if pos + 1 < rankKeys.length then
      link wilds pos wild wilds (pos + 1)
    (List.range' (pos + 1) (rankKeys.length - (pos + 1))).forM fun next => do
      link wilds pos (← nth rankKeys next) ranks next
  return ⟨start, ranks ++ wilds⟩

def component (c : Component) : Building Fragment :=
  match c.shape with
  | .set => group rankKeys c.size.toNat
  | .color => group colorKeys c.size.toNat
  | .run => run c.size.toNat

/-- What completes a group leads on to the start of the next one. -/
def splice (fragments : List Fragment) : Building Fragment := do
  (fragments.zip fragments.tail).forM fun (fragment, next) =>
    fragment.finals.forM fun id => put id .epsilon next.start
  match fragments.head?, fragments.getLast? with
  | some first, some last => return ⟨first.start, last.finals⟩
  | _, _ => return ⟨← alloc, []⟩

/-- All groups are built before any of them is joined to the next. -/
def sequence (components : List Component) : Building Fragment := do
  splice (← components.mapM component)

def finish (fragment : Fragment) : Building Fragment := do
  fragment.finals.forM markFinal
  return fragment

def unmarked (p : Phase) : Building Fragment :=
  match p with
  | .unsized .set => anyGroup rankKeys
  | .unsized .color => anyGroup colorKeys
  | .unsized .run => anyRun
  | .sized components => sequence components

def phase (p : Phase) : Building Fragment := do
  finish (← unmarked p)

end Arena
end Meld.Blueprint
