import Meld.Automaton.Diagram
import Meld.Automaton.Walk

namespace Meld.Automaton

inductive Fault where
  | noState (id : StateId)
  | endless
  deriving DecidableEq, Repr

inductive Call where
  | restart
  | goTo (id : StateId)
  | take (card : Card)
  | isFinal
  | next (id : StateId) (card : Card)
  | accepts (cards : List Card)
  | takes (cards : List Card)
  | acceptsSomePrefix (cards : List Card)
  | draw
  deriving DecidableEq, Repr

inductive Answer where
  | flag (value : Bool)
  | target (id? : Option StateId)
  | drawing (text : String)
  deriving DecidableEq, Repr

namespace Walker

variable {a : Automaton}

/-- Where a walker may not go, it stays. -/
def reply (w : Walker a) : Call → Answer × Walker a
  | .restart => (.flag true, atStart a)
  | .goTo id =>
    match at? a id with
    | some there => (.flag true, there)
    | none => (.flag false, w)
  | .take card => (.flag (w.take card).1, (w.take card).2)
  | .isFinal => (.flag w.isFinal, w)
  | .next id card => (.target (a.step? id card), w)
  | .accepts cards => (.flag (a.accepts cards), w)
  | .takes cards => (.flag (a.takes cards), w)
  | .acceptsSomePrefix cards => (.flag (a.acceptsSomePrefix cards), w)
  | .draw => (.drawing a.diagram, w)

def session (w : Walker a) : List Call → List (Answer × Walker a)
  | [] => []
  | call :: calls => w.reply call :: (w.reply call).2.session calls

end Walker

/-! The same walks with no care taken: a handle at hand is looked up as if it had a state, and
epsilon transitions are followed as if they came to an end. -/

namespace Trusting

def state (a : Automaton) (id : StateId) : Except Fault State :=
  match a.state? id with
  | some s => .ok s
  | none => .error (.noState id)

def closure (a : Automaton) : Nat → StateId → Except Fault StateId
  | 0, _ => .error .endless
  | hops + 1, id => do
    let s ← state a id
    match s.epsilon? with
    | none => pure id
    | some next => closure a hops next

/-- The only handle that is checked is the one that comes from outside. -/
def step (a : Automaton) (id : StateId) (card : Card) : Except Fault (Option StateId) :=
  match a.state? id with
  | none => pure none
  | some _ => do
    let here ← closure a a.size id
    let s ← state a here
    pure (s.step? card)

def isFinal (a : Automaton) (id : StateId) : Except Fault Bool := do
  let s ← state a id
  pure s.isFinal

def run (a : Automaton) (id : StateId) : List Card → Except Fault (Option StateId)
  | [] => pure (some id)
  | card :: cards => do
    match ← step a id card with
    | none => pure none
    | some next => run a next cards

def accepts (a : Automaton) (cards : List Card) : Except Fault Bool := do
  match ← run a a.start cards with
  | none => pure false
  | some id => isFinal a id

def takes (a : Automaton) (cards : List Card) : Except Fault Bool := do
  let id? ← run a a.start cards
  pure id?.isSome

def acceptsSomePrefixFrom (a : Automaton) (id : StateId) : List Card → Except Fault Bool
  | [] => isFinal a id
  | card :: cards => do
    if ← isFinal a id then pure true
    else
      match ← step a id card with
      | none => pure false
      | some next => acceptsSomePrefixFrom a next cards

def drawFrom (a : Automaton) :
    Nat → List StateId → Std.HashSet StateId → Except Fault (List String)
  | _, [], _ => .ok []
  | 0, _ :: _, _ => .error .endless
  | states + 1, id :: queue, seen => do
    let s ← state a id
    let (new, seen) := unseen (s.transitions.map (·.target)) seen
    let lines ← drawFrom a states (queue ++ new) seen
    pure (a.nodeLine id :: s.transitions.map (edgeLine id) ++ lines)

/-- No more states come into the queue than there are. -/
def draw (a : Automaton) : Except Fault String := do
  let lines ← drawFrom a a.size [a.start] {a.start}
  pure (String.join ((["digraph phase \x7b", "  label=\"" ++ a.phase.text ++ "\";"]
    ++ lines ++ ["\x7d"]).map (· ++ "\n")))

variable {a : Automaton}

def reply (w : Walker a) : Call → Except Fault (Answer × Walker a)
  | .restart => pure (.flag true, Walker.atStart a)
  | .goTo id =>
    match a.state? id with
    | some _ => pure (.flag true, ⟨id⟩)
    | none => pure (.flag false, w)
  | .take card => do
    match ← step a w.state card with
    | some next => pure (.flag true, ⟨next⟩)
    | none => pure (.flag false, w)
  | .isFinal => do
    let final ← isFinal a w.state
    pure (.flag final, w)
  | .next id card => do
    let id? ← step a id card
    pure (.target id?, w)
  | .accepts cards => do
    let accepted ← accepts a cards
    pure (.flag accepted, w)
  | .takes cards => do
    let taken ← takes a cards
    pure (.flag taken, w)
  | .acceptsSomePrefix cards => do
    let accepted ← acceptsSomePrefixFrom a a.start cards
    pure (.flag accepted, w)
  | .draw => do
    let text ← draw a
    pure (.drawing text, w)

def session (w : Walker a) : List Call → Except Fault (List (Answer × Walker a))
  | [] => pure []
  | call :: calls => do
    let answered ← reply w call
    let replies ← session answered.2 calls
    pure (answered :: replies)

theorem state_eq {id : StateId} {s : State} (h : a.state? id = some s) :
    state a id = .ok s := by
  rw [state, h]

theorem closure_of_epsilon?_eq_none {id : StateId} {s : State} (hs : a.state? id = some s)
    (he : s.epsilon? = none) (hops : Nat) : closure a (hops + 1) id = .ok id := by
  simp only [closure, state_eq hs, bind, Except.bind, he]
  rfl

theorem closure_of_epsilon?_eq_some {id next : StateId} {s : State} (hs : a.state? id = some s)
    (he : s.epsilon? = some next) (hops : Nat) :
    closure a (hops + 1) id = closure a hops next := by
  simp only [closure, state_eq hs, bind, Except.bind, he]

end Trusting
end Meld.Automaton
