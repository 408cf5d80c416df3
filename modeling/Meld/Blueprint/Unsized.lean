import Meld.Blueprint.Track

namespace Meld.Blueprint

def anyGroup (keys : List Guard) : Plan where
  places := [.start, .wilds 0] ++ (List.range keys.length).map (.lane · 0)
  index
    | .start => 0
    | .wilds _ => 1
    | .lane key _ => 2 + key
  edges
    | .lane key _ =>
      match keys[key]? with
      | none => []
      | some guard => [(guard, .lane key 0), (wild, .lane key 0)]
    | _ => (wild, .wilds 0) :: keys.mapIdx fun key guard => (guard, .lane key 0)
  ends := (List.range keys.length).map (.lane · 0) ++ [.wilds 0]

def rankEdges (first : Nat) : List (Guard × Place) :=
  (rankKeys.mapIdx fun pos guard => (guard, .lane 0 pos)).drop first

/-- One card or more of consecutive ranks. Here a position on the lane is that of a rank, and wild
cards before it stand for the ranks below. -/
def anyRun : Plan where
  places := .start :: (List.range 12).map (.lane 0) ++ (List.range 12).map .wilds
  index
    | .start => 0
    | .lane _ pos => 1 + pos
    | .wilds pos => 13 + pos
  edges
    | .start => rankEdges 0 ++ [(wild, .wilds 0)]
    | .lane _ pos =>
      match rankKeys[pos + 1]? with
      | none => []
      | some guard => [(guard, .lane 0 (pos + 1)), (wild, .lane 0 (pos + 1))]
    | .wilds pos =>
      (if pos + 1 < 12 then [(wild, .wilds (pos + 1))] else []) ++ rankEdges (pos + 1)
  ends := (List.range 12).map (.lane 0) ++ (List.range 12).map .wilds

theorem anyRun_numbered : anyRun.Numbered := by
  unfold Plan.Numbered
  decide

end Meld.Blueprint
