import Meld.Automaton.Guard

namespace Meld

abbrev StateId := UInt32

structure Transition where
  guard : Guard
  target : StateId
  deriving DecidableEq, Repr

structure State where
  isFinal : Bool
  transitions : List Transition
  deriving DecidableEq, Repr

namespace State

def plain : State := ⟨false, []⟩

def target? (s : State) (guard : Guard) : Option StateId :=
  (s.transitions.find? (·.guard = guard)).map (·.target)

def epsilon? (s : State) : Option StateId := s.target? .epsilon

/-- Puts the target in place of the one that the guard had, or else adds a transition. -/
def place (guard : Guard) (target : StateId) : List Transition → List Transition
  | [] => [⟨guard, target⟩]
  | t :: ts => if t.guard = guard then ⟨guard, target⟩ :: ts else t :: place guard target ts

def insert (s : State) (guard : Guard) (target : StateId) : State :=
  { s with transitions := place guard target s.transitions }

/-- The transition whose guard precedes all others, the first of several with one guard. -/
def strongest? : List Transition → Option Transition
  | [] => none
  | t :: ts =>
    match strongest? ts with
    | none => some t
    | some u => if u.guard.precedes t.guard then some u else some t

def step? (s : State) (card : Card) : Option StateId :=
  (strongest? (s.transitions.filter (·.guard.fits card))).map (·.target)

theorem target?_insert_self (s : State) (guard : Guard) (target : StateId) :
    (s.insert guard target).target? guard = some target := by
  unfold insert target?
  induction s.transitions with
  | nil => simp [place]
  | cons t ts ih => by_cases h : t.guard = guard <;> simp_all [place]

theorem target?_insert_of_ne (s : State) {guard other : Guard} (target : StateId)
    (ne : other ≠ guard) : (s.insert guard target).target? other = s.target? other := by
  unfold insert target?
  induction s.transitions with
  | nil => simp [place, ne.symm]
  | cons t ts ih =>
    by_cases h : t.guard = guard
    · simp [place, h, ne.symm]
    · by_cases h' : t.guard = other <;> simp_all [place]

end State
end Meld
