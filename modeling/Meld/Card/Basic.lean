import Meld.Card.Color
import Meld.Card.Rank
import Meld.Text.Quoted

namespace Meld

inductive Card.Error where
  | mismatch (color : Color) (rank : Rank)
  | malformed (token : String)
  | unknownColor (token : String)
  | unknownRank (token : String)
  deriving DecidableEq, Repr

def Card.Error.message : Card.Error → String
  | mismatch color rank =>
    "both color (" ++ color.name ++ ") and rank (" ++ rank.name
      ++ ") must be wild or skip if one of them is"
  | malformed token => "card " ++ Text.quote token ++ " does not match [RBGY](1-12), W or S"
  | unknownColor token => "unrecognized color in card " ++ Text.quote token
  | unknownRank token => "unrecognized rank in card " ++ Text.quote token

/-- A color and a rank that agree on being wild and on being skip. -/
structure Card where
  color : Color
  rank : Rank
  wild_iff : color = .wild ↔ rank = .wild
  skip_iff : color = .skip ↔ rank = .skip
  deriving DecidableEq, Repr

namespace Card

def wild : Card := ⟨.wild, .wild, by decide, by decide⟩

def skip : Card := ⟨.skip, .skip, by decide, by decide⟩

def make (color : Color) (rank : Rank) : Except Card.Error Card :=
  if h : (color = .wild ↔ rank = .wild) ∧ (color = .skip ↔ rank = .skip) then
    .ok ⟨color, rank, h.1, h.2⟩
  else .error (.mismatch color rank)

def isWild (c : Card) : Bool := c.rank = .wild

def isSkip (c : Card) : Bool := c.rank = .skip

def index (c : Card) : Nat := c.color.index * 14 + c.rank.index

/-- Equal cards cannot be told apart, so any order by `index` is the same list. -/
def sort (cards : List Card) : List Card := cards.mergeSort fun c d => c.index ≤ d.index

theorem ext_iff {c d : Card} : c = d ↔ c.color = d.color ∧ c.rank = d.rank := by
  cases c
  cases d
  simp

theorem make_eq_ok_iff {color : Color} {rank : Rank} {c : Card} :
    make color rank = .ok c ↔ c.color = color ∧ c.rank = rank := by
  unfold make
  split
  · simp [ext_iff, eq_comm]
  · next h =>
    simp only [reduceCtorEq, false_iff]
    rintro ⟨rfl, rfl⟩
    exact h ⟨c.wild_iff, c.skip_iff⟩

theorem isWild_iff {c : Card} : c.isWild = true ↔ c = wild := by
  simp only [isWild, decide_eq_true_eq, ext_iff, wild]
  exact ⟨fun h => ⟨c.wild_iff.2 h, h⟩, And.right⟩

theorem isSkip_iff {c : Card} : c.isSkip = true ↔ c = skip := by
  simp only [isSkip, decide_eq_true_eq, ext_iff, skip]
  exact ⟨fun h => ⟨c.skip_iff.2 h, h⟩, And.right⟩

theorem sort_perm (cards : List Card) : (sort cards).Perm cards := List.mergeSort_perm ..

end Card
end Meld
