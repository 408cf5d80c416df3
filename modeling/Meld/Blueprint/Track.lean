import Meld.Blueprint.Plan

namespace Meld.Blueprint

def wild : Guard := .rank .wild

def rankKeys : List Guard := Rank.numbered.map .rank

def colorKeys : List Guard := Color.real.map .color

/-- A group of `size` cards: one lane for each choice of what the cards share, and a lane of wild
cards, which goes over to another lane as soon as a card decides. -/
structure Track where
  size : Nat
  width : Nat
  /-- What each lane asks for at a position. -/
  wants : Nat → List Guard
  /-- Whether further cards may join a complete group. -/
  isOpen : Bool

namespace Track

def after? (t : Track) (pos : Nat) : Option Nat :=
  if pos + 1 < t.size then some (pos + 1) else if t.isOpen then some pos else none

def commit (t : Track) (pos : Nat) : List (Guard × Place) :=
  (t.wants pos).mapIdx fun key guard => (guard, .lane key pos)

def wildPlaces (t : Track) : List Place := (List.range t.size).map .wilds

def lanePlaces (t : Track) : List Place :=
  (List.range t.width).flatMap fun key => (List.range t.size).map (.lane key)

def places (t : Track) : List Place :=
  .start :: if t.isOpen then t.wildPlaces ++ t.lanePlaces else t.lanePlaces ++ t.wildPlaces

def index (t : Track) : Place → Nat
  | .start => 0
  | .wilds pos => 1 + (if t.isOpen then 0 else t.width * t.size) + pos
  | .lane key pos => 1 + (if t.isOpen then t.size else 0) + key * t.size + pos

def edges (t : Track) : Place → List (Guard × Place)
  | .start =>
    if t.isOpen then (wild, .wilds 0) :: t.commit 0 else t.commit 0 ++ [(wild, .wilds 0)]
  | .wilds pos =>
    match t.after? pos with
    | none => []
    | some next => (wild, .wilds next) :: t.commit next
  | .lane key pos =>
    match t.after? pos with
    | none => []
    | some next =>
      match (t.wants next)[key]? with
      | none => []
      | some guard => [(guard, .lane key next), (wild, .lane key next)]

def ends (t : Track) : List Place :=
  (List.range t.width).map (.lane · (t.size - 1)) ++ [.wilds (t.size - 1)]

def plan (t : Track) : Plan := ⟨t.places, t.index, t.edges, t.ends⟩

theorem length_wildPlaces (t : Track) : t.wildPlaces.length = t.size := by
  simp only [wildPlaces, List.length_map, List.length_range]

theorem length_lanePlaces (t : Track) : t.lanePlaces.length = t.width * t.size := by
  simp only [lanePlaces, List.length_flatMap, List.length_map, List.length_range, List.map_const',
    List.sum_replicate_nat]

theorem length_places (t : Track) : t.places.length = 1 + t.size * (t.width + 1) := by
  have h := Nat.mul_comm t.width t.size
  unfold places
  split <;>
    simp only [List.length_cons, List.length_append, length_wildPlaces, length_lanePlaces,
      Nat.mul_add, h] <;> omega

theorem getElem_wildPlaces (t : Track) {pos : Nat} (h : pos < t.size) :
    t.wildPlaces[pos]? = some (.wilds pos) := by
  simp only [wildPlaces, List.getElem?_map, List.getElem?_range h, Option.map_some]

theorem getElem_lanes (width size : Nat) {key pos : Nat} (hk : key < width) (hp : pos < size) :
    ((List.range width).flatMap fun key =>
      (List.range size).map (Place.lane key))[key * size + pos]? = some (.lane key pos) := by
  induction width with
  | zero => omega
  | succ width ih =>
    have len : ((List.range width).flatMap fun key => (List.range size).map (Place.lane key)).length
        = width * size := by
      simp only [List.length_flatMap, List.length_map, List.length_range, List.map_const',
        List.sum_replicate_nat]
    rw [List.range_succ, List.flatMap_append, List.flatMap_singleton]
    by_cases h : key < width
    · have := Nat.mul_le_mul_right size (Nat.succ_le_of_lt h)
      rw [Nat.succ_mul] at this
      rw [List.getElem?_append_left (by omega), ih h]
    · obtain rfl : key = width := by omega
      rw [List.getElem?_append_right (by omega), len, Nat.add_sub_cancel_left,
        List.getElem?_map, List.getElem?_range hp, Option.map_some]

theorem plan_numbered (t : Track) : t.plan.Numbered := by
  intro q hq
  have lw := t.length_wildPlaces
  have ll := t.length_lanePlaces
  have lanes : q ∈ t.lanePlaces → ∃ key < t.width, ∃ pos < t.size, .lane key pos = q := by
    simp [lanePlaces]
  have wilds : q ∈ t.wildPlaces → ∃ pos < t.size, .wilds pos = q := by
    simp [wildPlaces]
  cases open? : t.isOpen <;>
    simp only [plan, places, open?, List.mem_cons, if_true, if_false, Bool.false_eq_true,
      List.mem_append] at hq ⊢
  · rcases hq with rfl | hq | hq
    · rfl
    · obtain ⟨key, hk, pos, hp, rfl⟩ := lanes hq
      have := Nat.mul_le_mul_right t.size (Nat.succ_le_of_lt hk)
      rw [Nat.succ_mul] at this
      simp only [index, open?, if_false, Bool.false_eq_true]
      rw [show 1 + 0 + key * t.size + pos = key * t.size + pos + 1 by omega,
        List.getElem?_cons_succ, List.getElem?_append_left (by omega)]
      exact getElem_lanes t.width t.size hk hp
    · obtain ⟨pos, hp, rfl⟩ := wilds hq
      simp only [index, open?, if_false, Bool.false_eq_true]
      rw [show 1 + t.width * t.size + pos = t.width * t.size + pos + 1 by omega,
        List.getElem?_cons_succ, List.getElem?_append_right (by omega), ll,
        Nat.add_sub_cancel_left]
      exact t.getElem_wildPlaces hp
  · rcases hq with rfl | hq | hq
    · rfl
    · obtain ⟨pos, hp, rfl⟩ := wilds hq
      simp only [index, open?, if_true]
      rw [show 1 + 0 + pos = pos + 1 by omega, List.getElem?_cons_succ,
        List.getElem?_append_left (by omega)]
      exact t.getElem_wildPlaces hp
    · obtain ⟨key, hk, pos, hp, rfl⟩ := lanes hq
      simp only [index, open?, if_true]
      rw [show 1 + t.size + key * t.size + pos = t.size + (key * t.size + pos) + 1 by omega,
        List.getElem?_cons_succ, List.getElem?_append_right (by omega), lw, Nat.add_sub_cancel_left]
      exact getElem_lanes t.width t.size hk hp

def group (keys : List Guard) (size : Nat) : Track := ⟨size, keys.length, fun _ => keys, true⟩

def run (size : Nat) : Track :=
  ⟨size, 13 - size, fun pos => (rankKeys.drop pos).take (13 - size), false⟩

end Track
end Meld.Blueprint
