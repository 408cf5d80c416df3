import Meld.Deck.Basic
import Meld.Text.Numeral
import Meld.Text.Quoted

namespace Meld

/-- What the cards of one group share: their rank, their color, or that their ranks follow one
another. -/
inductive Shape where
  | set
  | color
  | run
  deriving DecidableEq, Repr

namespace Shape

def index : Shape → Nat
  | set => 0
  | color => 1
  | run => 2

def all : List Shape := [set, color, run]

def letter : Shape → Char
  | set => 'S'
  | color => 'C'
  | run => 'R'

def ofLetter? : Char → Option Shape
  | 'S' => some set
  | 'C' => some color
  | 'R' => some run
  | _ => none

def name : Shape → String
  | set => "Set"
  | color => "Color"
  | run => "Run"

/-- A run is no longer than the numbered ranks; other groups may take a whole deck. -/
def limit : Shape → Nat
  | run => Rank.numbered.length
  | _ => Deck.size

theorem ofLetter?_letter (s : Shape) : ofLetter? s.letter = some s := by cases s <;> rfl

theorem ofLetter?_eq_some_iff {l : Char} {s : Shape} : ofLetter? l = some s ↔ s.letter = l := by
  constructor
  · intro h
    unfold ofLetter? at h
    split at h <;> simp at h <;> subst h <;> rfl
  · rintro rfl
    exact ofLetter?_letter s

theorem all_getElem_index (s : Shape) : all[s.index]? = some s := by cases s <;> rfl

end Shape

inductive Phase.Error where
  | unrecognized (text : String)
  /-- The text of a component, its size and the largest size that it may have. -/
  | badSize (component : String) (size : UInt64) (max : Nat)
  deriving DecidableEq, Repr

def Phase.Error.message : Phase.Error → String
  | unrecognized text => "unrecognized phase " ++ Text.quote text
  | badSize component size max =>
    "component " ++ Text.quote component ++ " has size " ++ Text.decimal size.toNat
      ++ ", expected 1 to " ++ Text.decimal max

/-- A group of a given number of cards. A snapshot may hold sizes that are out of range; `make`
gives none. -/
structure Component where
  shape : Shape
  size : UInt64
  deriving DecidableEq, Repr

namespace Component

def InRange (c : Component) : Prop := 1 ≤ c.size.toNat ∧ c.size.toNat ≤ c.shape.limit

instance (c : Component) : Decidable c.InRange := inferInstanceAs (Decidable (_ ∧ _))

def chars (c : Component) : List Char := c.shape.letter :: Text.numeral c.size.toNat

def text (c : Component) : String := String.ofList c.chars

def make (shape : Shape) (size : UInt64) : Except Phase.Error Component :=
  if InRange ⟨shape, size⟩ then .ok ⟨shape, size⟩
  else .error (.badSize (text ⟨shape, size⟩) size shape.limit)

theorem make_eq_ok_iff {shape : Shape} {size : UInt64} {c : Component} :
    make shape size = .ok c ↔ c = ⟨shape, size⟩ ∧ c.InRange := by
  unfold make
  split
  · next h => exact ⟨fun e => by cases e; exact ⟨rfl, h⟩, fun e => by rw [e.1]⟩
  · next h => exact ⟨nofun, fun e => absurd (e.1 ▸ e.2) h⟩

end Component

/-- What a hand has to lay down: one group of any size, or groups of given sizes in order. -/
inductive Phase where
  | unsized (shape : Shape)
  | sized (components : List Component)
  deriving DecidableEq, Repr

namespace Phase

/-- Sizes are added up in machine words, and a sum that is too large for one is an error. -/
inductive CountError where
  | overflow
  deriving DecidableEq, Repr

def CountError.message : CountError → String
  | overflow => "attempt to add with overflow"

def addSizes (count size : UInt64) : Except CountError UInt64 :=
  if count.toNat + size.toNat < UInt64.size then .ok (count + size) else .error .overflow

def shapes : Phase → List Shape
  | unsized shape => [shape]
  | sized components => components.map (·.shape)

def cardsNeeded : Phase → Except CountError UInt64
  | unsized _ => .ok 1
  | sized components => components.foldlM (fun count c => addSizes count c.size) 0

end Phase
end Meld
