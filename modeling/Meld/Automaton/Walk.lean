import Meld.Automaton.Basic

namespace Meld.Automaton

def accepts (a : Automaton) (cards : List Card) : Bool := (a.run? a.start cards).any a.isFinal

def takes (a : Automaton) (cards : List Card) : Bool := (a.run? a.start cards).isSome

def acceptsSomePrefixFrom (a : Automaton) (id : StateId) : List Card → Bool
  | [] => a.isFinal id
  | card :: cards =>
    a.isFinal id || (a.step? id card).any fun next => a.acceptsSomePrefixFrom next cards

/-- A final state is met before a card is refused; the cards after it do not count. -/
def acceptsSomePrefix (a : Automaton) (cards : List Card) : Bool :=
  a.acceptsSomePrefixFrom a.start cards

structure Walker (a : Automaton) where
  state : StateId

namespace Walker

variable {a : Automaton}

def atStart (a : Automaton) : Walker a := ⟨a.start⟩

/-- A walker stands on states of its automaton only. -/
def at? (a : Automaton) (id : StateId) : Option (Walker a) := (a.state? id).map fun _ => ⟨id⟩

def isFinal (w : Walker a) : Bool := a.isFinal w.state

/-- A refused card leaves the walker where it is. -/
def take (w : Walker a) (card : Card) : Bool × Walker a :=
  match a.step? w.state card with
  | some next => (true, ⟨next⟩)
  | none => (false, w)

end Walker
end Meld.Automaton
