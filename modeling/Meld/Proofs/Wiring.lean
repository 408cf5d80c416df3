import Meld.Proofs.Edits
import Meld.Proofs.Precedence
import Meld.Proofs.WellFormed

namespace Meld

/-- Of different guards, each insertion into an empty state adds a transition at the end. -/
theorem State.insertAll_of_nodup {ts : List Transition} (h : (ts.map (·.guard)).Nodup) :
    plain.insertAll ts = ⟨false, ts⟩ := by
  induction ts using List.reverseRecOn with
  | nil => rfl
  | append_singleton ts t ih =>
    rw [List.map_append, List.map_singleton,
      (List.perm_append_singleton _ _).nodup_iff, List.nodup_cons] at h
    have new : ∀ u ∈ ts, u.guard ≠ t.guard := fun u hu he => h.1 (List.mem_map.2 ⟨u, hu, he⟩)
    rw [insertAll_concat, ih h.2, insert, place_eq_append new]

namespace Blueprint

abbrev Wire := Place × (Guard × Place)

def edgesOf (wires : List Wire) (q : Place) : List (Guard × Place) :=
  wires.filterMap fun w => if w.1 = q then some w.2 else none

section

variable {α β : Type} {wires : List Wire} {q : Place}

@[simp] theorem edgesOf_nil (q : Place) : edgesOf [] q = [] := by simp [edgesOf]

@[simp] theorem edgesOf_cons (w : Wire) (wires : List Wire) (q : Place) :
    edgesOf (w :: wires) q = if w.1 = q then w.2 :: edgesOf wires q else edgesOf wires q := by
  by_cases h : w.1 = q <;> simp [edgesOf, h]

@[simp] theorem edgesOf_append (wires wires' : List Wire) (q : Place) :
    edgesOf (wires ++ wires') q = edgesOf wires q ++ edgesOf wires' q := List.filterMap_append

@[simp] theorem edgesOf_flatMap (xs : List β) (f : β → List Wire) (q : Place) :
    edgesOf (xs.flatMap f) q = xs.flatMap fun x => edgesOf (f x) q := List.filterMap_flatMap

theorem flatMap_nil (xs : List β) : (xs.flatMap fun _ => ([] : List α)) = [] :=
  List.flatMap_eq_nil_iff.2 fun _ _ => rfl

/-- Only one turn of a loop gives anything. -/
theorem flatMap_range_eq {f : Nat → List α} {n i : Nat} (hi : i < n)
    (h : ∀ j < n, j ≠ i → f j = []) : (List.range n).flatMap f = f i := by
  induction n with
  | zero => omega
  | succ n ih =>
    rw [List.range_succ, List.flatMap_append, List.flatMap_singleton]
    by_cases hn : i = n
    · subst hn
      have before : (List.range i).flatMap f = [] := by
        rw [List.flatMap_eq_nil_iff]
        intro j hj
        rw [List.mem_range] at hj
        exact h j (Nat.lt_succ_of_lt hj) (Nat.ne_of_lt hj)
      rw [before, List.nil_append]
    · rw [ih (by omega) fun j hj hne => h j (Nat.lt_succ_of_lt hj) hne,
        h n n.lt_succ_self (Ne.symm hn), List.append_nil]

end

namespace Plan

variable {p : Plan} {base : Nat} {q : Place} {wires : List Wire} {arena : Arena}

def bare (p : Plan) (base : Nat) (q : Place) : State :=
  ⟨false, (p.edges q).map fun (guard, r) => ⟨guard, p.stateId base r⟩⟩

def edit (p : Plan) (base : Nat) (w : Wire) : Edit :=
  ⟨base + p.index w.1, (·.insert w.2.1 (p.stateId base w.2.2))⟩

structure Wired (p : Plan) (wires : List Wire) : Prop where
  mem_places : ∀ w ∈ wires, w.1 ∈ p.places
  edges : ∀ q ∈ p.places, edgesOf wires q = p.edges q

theorem index_inj (h : p.Numbered) {q r : Place} (hq : q ∈ p.places) (hr : r ∈ p.places)
    (he : p.index q = p.index r) : q = r := by
  have hi := h q hq
  rw [he, h r hr] at hi
  exact (Option.some.inj hi).symm

theorem index_eq (h : p.Numbered) (ht : p.Tidy) {i : Nat} (hi : p.places[i]? = some q) :
    p.index q = i := by
  have hl := (List.getElem?_eq_some_iff.1 hi).1
  exact ((List.getElem?_inj hl ht.places_nodup).1
    (hi.trans (h q (List.mem_of_getElem? hi)).symm)).symm

theorem reviseAt_edit (h : p.Numbered) (hw : ∀ w ∈ wires, w.1 ∈ p.places) (hq : q ∈ p.places)
    (s : State) : Arena.reviseAt (wires.map (p.edit base)) (base + p.index q) s =
      s.insertAll ((edgesOf wires q).map fun (guard, r) => ⟨guard, p.stateId base r⟩) := by
  induction wires generalizing s with
  | nil => rfl
  | cons w wires ih =>
    rw [List.forall_mem_cons] at hw
    rw [List.map_cons, Arena.reviseAt, List.foldl_cons, ← Arena.reviseAt, ih hw.2, edgesOf_cons]
    by_cases hwq : w.1 = q
    · rw [if_pos hwq, if_pos (by rw [edit, hwq])]
      rfl
    · have other : (p.edit base w).index ≠ base + p.index q := fun he =>
        hwq (index_inj h hw.1 hq (Nat.add_left_cancel he))
      rw [if_neg hwq, if_neg other]

/-- Behind an arena, new states and the wires of a plan are the states of its places. -/
theorem Wired.revise (hw : p.Wired wires) (h : p.Numbered) (ht : p.Tidy)
    (hs : arena.size = base) :
    Arena.revise (wires.map (p.edit base)) (arena ++ Array.replicate p.size .plain) =
      arena ++ (p.places.map (p.bare base)).toArray := by
  apply Array.ext_getElem?
  intro i
  rw [Arena.getElem?_revise, Array.getElem?_append, Array.getElem?_append]
  split
  · next hi =>
    have behind : ∀ e ∈ wires.map (p.edit base), e.index ≠ i := by
      intro e he
      obtain ⟨w, -, rfl⟩ := List.mem_map.1 he
      simp only [edit]
      omega
    rw [funext (Arena.reviseAt_of_forall_ne behind), Option.map_id']
  · next hi =>
    obtain ⟨j, rfl⟩ := Nat.exists_eq_add_of_le (Nat.le_of_not_lt hi)
    have place : (p.places.map (p.bare base)).toArray[j]? = p.places[j]?.map (p.bare base) := by
      rw [List.getElem?_toArray, List.getElem?_map]
    rw [Nat.add_sub_cancel_left, hs, place]
    by_cases hj : j < p.size
    · -- the edges of a place ask for different things, so that each insertion adds one
      have hq := List.getElem_mem hj
      have index : p.index p.places[j] = j := index_eq h ht (List.getElem?_eq_getElem hj)
      have nodup : (((p.edges p.places[j]).map
          fun (guard, r) => (⟨guard, p.stateId base r⟩ : Transition)).map (·.guard)).Nodup := by
        rw [List.map_map]
        exact ht.guards_nodup _ hq
      rw [Array.getElem?_replicate, if_pos hj, List.getElem?_eq_getElem hj, Option.map_some,
        Option.map_some, bare, ← State.insertAll_of_nodup nodup, ← hw.edges _ hq,
        ← reviseAt_edit h hw.mem_places hq, index]
    · have hl : p.places[j]? = none := List.getElem?_eq_none (Nat.le_of_not_lt hj)
      rw [Array.getElem?_replicate, if_neg hj, hl]
      rfl

end Plan

namespace Track

variable {α : Type} {t : Track} {q : Place} {key pos : Nat}

def steps (t : Track) : List (Nat × Nat) :=
  (List.range t.size).flatMap fun pos => ((t.after? pos).map (pos, ·)).toList

def want (t : Track) (key pos : Nat) : Guard := (t.wants pos).getD key wild

def laneWires (t : Track) (key : Nat) (step : Nat × Nat) : List Wire :=
  [(.lane key step.1, t.want key step.2, .lane key step.2),
    (.lane key step.1, wild, .lane key step.2)]

def giveWay (t : Track) (step : Nat × Nat) (key : Nat) : Wire :=
  (.wilds step.1, t.want key step.2, .lane key step.2)

def wildWires (t : Track) (step : Nat × Nat) : List Wire :=
  (.wilds step.1, wild, .wilds step.2) :: (List.range t.width).map (t.giveWay step)

/-- The wires by which a lane leads on, and wild cards give way to it. -/
def sharedWires (t : Track) (key : Nat) (step : Nat × Nat) : List Wire :=
  t.laneWires key step ++ [t.giveWay step key]

def keyWires (t : Track) (key : Nat) : List Wire :=
  (.start, t.want key 0, .lane key 0) :: t.steps.flatMap (t.sharedWires key)

def rankWires (t : Track) (key : Nat) : List Wire :=
  (.start, t.want key 0, .lane key 0) :: t.steps.flatMap (t.laneWires key)

/-- The wires of a group that more cards may join, lane by lane. -/
def openWires (t : Track) : List Wire :=
  (.start, wild, .wilds 0) ::
    (t.steps.flatMap fun step => [(.wilds step.1, wild, .wilds step.2)]) ++
    (List.range t.width).flatMap t.keyWires

/-- The wires of a group that is complete with its last card, those of wild cards at the end. -/
def closedWires (t : Track) : List Wire :=
  (List.range t.width).flatMap t.rankWires ++
    (.start, wild, .wilds 0) :: t.steps.flatMap t.wildWires

theorem lt_size_of_mem_steps {step : Nat × Nat} (h : step ∈ t.steps) : step.1 < t.size := by
  obtain ⟨pos, hp, hs⟩ := List.mem_flatMap.1 h
  obtain ⟨next, -, rfl⟩ := Option.map_eq_some_iff.1 (Option.mem_toList.1 hs)
  exact List.mem_range.1 hp

/-- Of the steps, only the one from a given position gives anything. -/
theorem flatMap_steps (hp : pos < t.size) (f : Nat × Nat → List α) :
    (t.steps.flatMap fun step => if step.1 = pos then f step else []) =
      ((t.after? pos).map fun next => f (pos, next)).getD [] := by
  rw [steps, List.flatMap_assoc, flatMap_range_eq hp]
  · cases t.after? pos <;> simp
  · intro i _ hne
    cases t.after? i <;> simp [hne]

theorem wants_getElem (ht : t.Regular) (hp : pos < t.size) (hk : key < t.width) :
    (t.wants pos)[key]? = some (t.want key pos) := by
  rw [want, List.getD_eq_getElem?_getD, List.getElem?_eq_getElem (by rwa [ht.length_wants pos hp])]
  rfl

theorem commit_eq (ht : t.Regular) (hp : pos < t.size) :
    t.commit pos = (List.range t.width).map fun key => (t.want key pos, .lane key pos) := by
  apply List.ext_getElem?
  intro key
  rw [commit, List.getElem?_mapIdx, List.getElem?_map]
  by_cases hk : key < t.width
  · rw [List.getElem?_range hk, wants_getElem ht hp hk]
    rfl
  · have hw : (t.wants pos)[key]? = none :=
      List.getElem?_eq_none (by rw [ht.length_wants pos hp]; omega)
    rw [hw, List.getElem?_eq_none (by rw [List.length_range]; omega)]
    rfl

theorem edges_lane (ht : t.Regular) (hp : pos < t.size) (hk : key < t.width) :
    t.edges (.lane key pos) = ((t.after? pos).map fun next =>
      [(t.want key next, .lane key next), (wild, .lane key next)]).getD [] := by
  rw [edges]
  cases ha : t.after? pos with
  | none => rfl
  | some next =>
    simp only [wants_getElem ht (after?_eq_some hp ha).1 hk]
    rfl

theorem edges_wilds (ht : t.Regular) (hp : pos < t.size) :
    t.edges (.wilds pos) = ((t.after? pos).map fun next => (wild, .wilds next) ::
      (List.range t.width).map fun key => (t.want key next, .lane key next)).getD [] := by
  rw [edges]
  cases ha : t.after? pos with
  | none => rfl
  | some next =>
    simp only [commit_eq ht (after?_eq_some hp ha).1]
    rfl

theorem edgesOf_laneWires (key : Nat) (step : Nat × Nat) (pos : Nat) :
    edgesOf (t.laneWires key step) (.lane key pos) = if step.1 = pos then
      [(t.want key step.2, .lane key step.2), (wild, .lane key step.2)] else [] := by
  by_cases h : step.1 = pos <;> simp [laneWires, h]

theorem edgesOf_laneWires_of_ne (step : Nat × Nat) (h : ∀ pos, .lane key pos ≠ q) :
    edgesOf (t.laneWires key step) q = [] := by
  simp [laneWires, h]

theorem edgesOf_wildWires (step : Nat × Nat) (pos : Nat) :
    edgesOf (t.wildWires step) (.wilds pos) = if step.1 = pos then (wild, .wilds step.2) ::
      (List.range t.width).map fun key => (t.want key step.2, .lane key step.2) else [] := by
  by_cases h : step.1 = pos <;>
    simp [wildWires, giveWay, List.map_eq_flatMap, h, flatMap_nil]

theorem edgesOf_wildWires_of_ne (step : Nat × Nat) (h : ∀ pos, .wilds pos ≠ q) :
    edgesOf (t.wildWires step) q = [] := by
  simp [wildWires, giveWay, List.map_eq_flatMap, h, flatMap_nil]

theorem edgesOf_sharedWires_wilds (key : Nat) (step : Nat × Nat) (pos : Nat) :
    edgesOf (t.sharedWires key step) (.wilds pos) =
      if step.1 = pos then [(t.want key step.2, .lane key step.2)] else [] := by
  have other (pos' : Nat) : .lane key pos' ≠ Place.wilds pos := nofun
  rw [sharedWires, edgesOf_append, edgesOf_laneWires_of_ne step other]
  by_cases h : step.1 = pos <;> simp [giveWay, h]

theorem edgesOf_sharedWires (step : Nat × Nat) (h : ∀ pos, .wilds pos ≠ q) :
    edgesOf (t.sharedWires key step) q = edgesOf (t.laneWires key step) q := by
  simp [sharedWires, giveWay, h]

theorem edgesOf_openWires (ht : t.Regular) (ho : t.isOpen = true) (hq : q ∈ t.places) :
    edgesOf t.openWires q = t.edges q := by
  simp only [openWires, keyWires, edgesOf_append, edgesOf_cons, edgesOf_flatMap]
  rcases mem_places.1 hq with rfl | hq | hq
  · simp [edgesOf_sharedWires, edgesOf_laneWires_of_ne, edges, ho, commit_eq ht ht.size_pos,
      flatMap_nil, List.map_eq_flatMap]
  · obtain ⟨pos, hp, rfl⟩ := mem_wildPlaces.1 hq
    rw [edges_wilds ht hp]
    cases ha : t.after? pos <;>
      simp [edgesOf_sharedWires_wilds, flatMap_steps hp, flatMap_nil, ha, List.map_eq_flatMap]
  · obtain ⟨key, hk, pos, hp, rfl⟩ := mem_lanePlaces.1 hq
    rw [edges_lane ht hp hk, flatMap_range_eq hk]
    · simp [edgesOf_sharedWires, edgesOf_laneWires, flatMap_steps hp, flatMap_nil]
    · intro j hj hne
      simp [edgesOf_sharedWires, edgesOf_laneWires_of_ne, hne, flatMap_nil]

theorem edgesOf_closedWires (ht : t.Regular) (hc : t.isOpen = false) (hq : q ∈ t.places) :
    edgesOf t.closedWires q = t.edges q := by
  simp only [closedWires, rankWires, edgesOf_append, edgesOf_cons, edgesOf_flatMap]
  rcases mem_places.1 hq with rfl | hq | hq
  · simp [edgesOf_laneWires_of_ne, edgesOf_wildWires_of_ne, edges, hc, commit_eq ht ht.size_pos,
      flatMap_nil, List.map_eq_flatMap]
  · obtain ⟨pos, hp, rfl⟩ := mem_wildPlaces.1 hq
    rw [edges_wilds ht hp]
    simp [edgesOf_laneWires_of_ne, edgesOf_wildWires, flatMap_steps hp, flatMap_nil]
  · obtain ⟨key, hk, pos, hp, rfl⟩ := mem_lanePlaces.1 hq
    rw [edges_lane ht hp hk, flatMap_range_eq hk]
    · simp [edgesOf_laneWires, edgesOf_wildWires_of_ne, flatMap_steps hp, flatMap_nil]
    · intro j hj hne
      simp [edgesOf_laneWires_of_ne, hne, flatMap_nil]

theorem openWires_wired (ht : t.Regular) (ho : t.isOpen = true) : t.plan.Wired t.openWires where
  mem_places w hw := by
    simp only [openWires, keyWires, sharedWires, laneWires, giveWay, List.mem_append, List.mem_cons,
      List.mem_flatMap, List.not_mem_nil, or_false, List.mem_range] at hw
    rcases hw with (rfl | ⟨step, hs, rfl⟩) | ⟨key, hk, rfl | ⟨step, hs, (rfl | rfl) | rfl⟩⟩
    · exact start_mem_places
    · exact wilds_mem_places (lt_size_of_mem_steps hs)
    · exact start_mem_places
    · exact lane_mem_places hk (lt_size_of_mem_steps hs)
    · exact lane_mem_places hk (lt_size_of_mem_steps hs)
    · exact wilds_mem_places (lt_size_of_mem_steps hs)
  edges _ hq := edgesOf_openWires ht ho hq

theorem closedWires_wired (ht : t.Regular) (hc : t.isOpen = false) :
    t.plan.Wired t.closedWires where
  mem_places w hw := by
    simp only [closedWires, rankWires, wildWires, laneWires, giveWay, List.mem_append, List.mem_cons,
      List.mem_flatMap, List.not_mem_nil, or_false, List.mem_range, List.mem_map] at hw
    rcases hw with ⟨key, hk, rfl | ⟨step, hs, rfl | rfl⟩⟩ | rfl | ⟨step, hs, rfl | ⟨_, -, rfl⟩⟩
    · exact start_mem_places
    · exact lane_mem_places hk (lt_size_of_mem_steps hs)
    · exact lane_mem_places hk (lt_size_of_mem_steps hs)
    · exact start_mem_places
    · exact wilds_mem_places (lt_size_of_mem_steps hs)
    · exact wilds_mem_places (lt_size_of_mem_steps hs)
  edges _ hq := edgesOf_closedWires ht hc hq

end Track
end Blueprint
end Meld
