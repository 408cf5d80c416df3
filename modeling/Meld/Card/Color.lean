namespace Meld

/-- Wild and skip cards have a color of their own. -/
inductive Color where
  | red
  | blue
  | green
  | yellow
  | wild
  | skip
  deriving DecidableEq, Repr

namespace Color

def real : List Color := [red, blue, green, yellow]

def index : Color → Nat
  | red => 0
  | blue => 1
  | green => 2
  | yellow => 3
  | wild => 4
  | skip => 5

def all : List Color := [red, blue, green, yellow, wild, skip]

def letter : Color → Char
  | red => 'R'
  | blue => 'B'
  | green => 'G'
  | yellow => 'Y'
  | wild => 'W'
  | skip => 'S'

/-- Only the real colors are written as the letter of a numbered card. -/
def ofLetter? : Char → Option Color
  | 'R' => some red
  | 'B' => some blue
  | 'G' => some green
  | 'Y' => some yellow
  | _ => none

def name : Color → String
  | red => "Red"
  | blue => "Blue"
  | green => "Green"
  | yellow => "Yellow"
  | wild => "Wild"
  | skip => "Skip"

theorem all_getElem_index (c : Color) : all[c.index]? = some c := by cases c <;> rfl

theorem ofLetter?_eq_some_iff {l : Char} {c : Color} :
    ofLetter? l = some c ↔ c ∈ real ∧ c.letter = l := by
  constructor
  · intro h
    unfold ofLetter? at h
    split at h <;> simp_all [real] <;> subst h <;> decide
  · rintro ⟨h, rfl⟩
    simp only [real, List.mem_cons, List.not_mem_nil, or_false] at h
    rcases h with rfl | rfl | rfl | rfl <;> rfl

end Color
end Meld
