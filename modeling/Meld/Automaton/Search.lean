import Meld.Automaton.Basic
import Std.Data.HashSet

namespace Meld.Automaton

def handLimit : Nat := 128

/-- Positions of a hand, each of them a bit. -/
abbrev Mask := BitVec handLimit

def Mask.insert (mask : Mask) (i : Nat) : Mask := mask ||| BitVec.twoPow handLimit i

def Mask.positions (mask : Mask) : List Nat :=
  (List.range handLimit).filter fun i => mask &&& BitVec.twoPow handLimit i ≠ 0

/-- Positions of a hand whose cards the automaton takes in their order. -/
structure Choice where
  mask : Mask
  /-- The first position that may still be chosen. -/
  free : Nat
  state : StateId

/-- Choices that agree on their state and on their last position leave the same open. -/
abbrev Seen := Std.HashSet (StateId × Nat)

inductive Outcome where
  | found (mask : Mask)
  /-- The choices to come, the newest first. -/
  | pending (choices : List Choice) (seen : Seen)

/-- Extends a choice by one of the given cards in turn, until a final state is met. -/
def extend (a : Automaton) (c : Choice) : List (Card × Nat) → List Choice → Seen → Outcome
  | [], queue, seen => .pending queue seen
  | (card, i) :: rest, queue, seen =>
    match a.step? c.state card with
    | none => a.extend c rest queue seen
    | some state =>
      if a.isFinal state then .found (c.mask.insert i)
      else if seen.contains (state, i) then a.extend c rest queue seen
      else a.extend c rest (⟨c.mask.insert i, i + 1, state⟩ :: queue) (seen.insert (state, i))

def sweep (a : Automaton) (hand : List (Card × Nat)) :
    List Choice → Nat → List Choice → Seen → Outcome × Nat
  | [], explored, queue, seen => (.pending queue seen, explored)
  | c :: cs, explored, queue, seen =>
    match a.extend c (hand.drop c.free) queue seen with
    | .found mask => (.found mask, explored + 1)
    | .pending queue seen => a.sweep hand cs (explored + 1) queue seen

structure Search where
  positions? : Option (List Nat)
  explored : Nat
  deriving DecidableEq, Repr

/-- Searches by the length of choices, for at most the given number of lengths. -/
def searchFrom (a : Automaton) (hand : List (Card × Nat)) :
    Nat → List Choice → Nat → Seen → Search
  | 0, _, explored, _ => ⟨none, explored⟩
  | lengths + 1, choices, explored, seen =>
    match a.sweep hand choices explored [] seen with
    | (.found mask, explored) => ⟨some mask.positions, explored⟩
    | (.pending queue seen, explored) =>
      a.searchFrom hand lengths queue.reverse explored seen

/-- Searches the cards at the start of a hand for some that are accepted in their order. No search
is made among fewer cards than the phase asks for, or when these are too many to be counted. -/
def search? (a : Automaton) (hand : List Card) : Except Phase.CountError (Option Search) :=
  let hand := hand.take handLimit
  a.phase.cardsNeeded.map fun needed =>
    if hand.length < needed.toNat then none
    else some (a.searchFrom hand.zipIdx (hand.length + 1) [⟨0, 0, a.start⟩] 0 ∅)

/-- The positions of the fewest cards of a hand that are accepted in their order. -/
def pick? (a : Automaton) (hand : List Card) : Except Phase.CountError (Option (List Nat)) :=
  (a.search? hand).map (·.bind (·.positions?))

def canPick (a : Automaton) (hand : List Card) : Except Phase.CountError Bool :=
  (a.pick? hand).map Option.isSome

end Meld.Automaton
