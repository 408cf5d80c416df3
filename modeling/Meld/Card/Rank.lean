namespace Meld

/-- The numbered ranks come first, in the order of runs. -/
inductive Rank where
  | number (step : Fin 12)
  | skip
  | wild
  deriving DecidableEq, Repr

namespace Rank

def numbered : List Rank := (List.finRange 12).map number

def index : Rank → Nat
  | number step => step
  | skip => 12
  | wild => 13

def all : List Rank := numbered ++ [skip, wild]

def value? : Rank → Option Nat
  | number step => some (step + 1)
  | _ => none

def ofValue? (value : Nat) : Option Rank :=
  if h : 1 ≤ value ∧ value ≤ 12 then some (number ⟨value - 1, by omega⟩) else none

def name : Rank → String
  | number step =>
    #v["One", "Two", "Three", "Four", "Five", "Six", "Seven", "Eight", "Nine", "Ten", "Eleven",
      "Twelve"][step]
  | skip => "Skip"
  | wild => "Wild"

theorem all_getElem_index (r : Rank) : all[r.index]? = some r := by
  cases r with
  | number step => revert step; decide
  | skip => rfl
  | wild => rfl

theorem ofValue?_eq_some_iff {v : Nat} {r : Rank} : ofValue? v = some r ↔ r.value? = some v := by
  cases r with
  | number step =>
    have := step.isLt
    simp only [ofValue?, value?, Option.dite_none_right_eq_some, Option.some.injEq, number.injEq,
      Fin.ext_iff]
    constructor
    · rintro ⟨h, e⟩
      omega
    · rintro rfl
      exact ⟨⟨by omega, by omega⟩, by omega⟩
  | skip => simp [ofValue?, value?]
  | wild => simp [ofValue?, value?]

end Rank
end Meld
