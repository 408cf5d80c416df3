import Meld.Automaton.State

namespace Meld.Blueprint

/-- A place in the layout of one group, named for the cards that lead to it. -/
inductive Place where
  | start
  /-- Wild cards only, up to the given position. -/
  | wilds (pos : Nat)
  /-- Cards up to the given position, at least one of which fixed the lane. -/
  | lane (key pos : Nat)
  deriving DecidableEq, Repr

structure Plan where
  /-- All places in the order of their states, the start first. -/
  places : List Place
  /-- Where a place stands among all of them. -/
  index : Place → Nat
  edges : Place → List (Guard × Place)
  /-- The places that complete the group. -/
  ends : List Place

inductive Exit where
  /-- It becomes final. -/
  | finish
  /-- It leads on without a card. -/
  | join (next : StateId)

def Exit.apply (s : State) : Exit → State
  | finish => { s with isFinal := true }
  | .join next => s.insert .epsilon next

namespace Plan

def size (p : Plan) : Nat := p.places.length

def stateId (p : Plan) (base : Nat) (q : Place) : StateId := UInt32.ofNat (base + p.index q)

def state (p : Plan) (base : Nat) (exit : Exit) (q : Place) : State :=
  let s : State := ⟨false, (p.edges q).map fun (guard, r) => ⟨guard, p.stateId base r⟩⟩
  if q ∈ p.ends then exit.apply s else s

def states (p : Plan) (base : Nat) (exit : Exit) : List State := p.places.map (p.state base exit)

def Numbered (p : Plan) : Prop := ∀ q ∈ p.places, p.places[p.index q]? = some q

def blank : Plan := ⟨[.start], fun _ => 0, fun _ => [], []⟩

@[simp] theorem length_states (p : Plan) (base : Nat) (exit : Exit) :
    (p.states base exit).length = p.size := by simp [states, size]

end Plan

/-- Lays plans out one after the other. What completes one of them leads on to the next. -/
def layout : Nat → List Plan → List State
  | _, [] => []
  | base, [p] => p.states base .finish
  | base, p :: q :: ps =>
    p.states base (.join (q.stateId (base + p.size) .start)) ++ layout (base + p.size) (q :: ps)

def finals : Nat → List Plan → List StateId
  | _, [] => []
  | base, [p] => p.ends.map (p.stateId base)
  | base, p :: q :: ps => finals (base + p.size) (q :: ps)

theorem length_layout (base : Nat) (plans : List Plan) :
    (layout base plans).length = plans.foldr (fun p count => p.size + count) 0 := by
  fun_induction layout base plans <;> simp_all

end Meld.Blueprint
