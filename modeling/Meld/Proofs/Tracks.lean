import Meld.Proofs.Orderly
import Meld.Blueprint.Unsized

namespace Meld.Blueprint

theorem wild_fits_iff {card : Card} : wild.fits card = true ↔ card = Card.wild := by
  rw [wild, Guard.rank_fits_iff, ← Card.isWild_iff, Card.isWild, decide_eq_true_eq]

/-- Guards of which no two fit one card and none fits a wild card. -/
structure Sharp (keys : List Guard) : Prop where
  ne_epsilon : ∀ g ∈ keys, g ≠ .epsilon
  not_wild : ∀ g ∈ keys, g.fits Card.wild = false
  distinct : keys.Pairwise fun g h => ∀ card, g.fits card = true → h.fits card = false

namespace Sharp

variable {keys : List Guard} {card : Card}

theorem sublist {keys' : List Guard} (h : Sharp keys) (hs : keys'.Sublist keys) : Sharp keys' where
  ne_epsilon g hg := h.ne_epsilon g (hs.subset hg)
  not_wild g hg := h.not_wild g (hs.subset hg)
  distinct := h.distinct.sublist hs

theorem ne_wild {guard : Guard} (h : Sharp keys) (hg : guard ∈ keys)
    (hf : guard.fits card = true) : card ≠ Card.wild := by
  rintro rfl
  rw [h.not_wild guard hg] at hf
  exact Bool.noConfusion hf

theorem key_unique {i j : Nat} {g g' : Guard} (h : Sharp keys) (hi : keys[i]? = some g)
    (hj : keys[j]? = some g') (hg : g.fits card = true) (hg' : g'.fits card = true) : i = j := by
  obtain ⟨hil, rfl⟩ := List.getElem?_eq_some_iff.1 hi
  obtain ⟨hjl, rfl⟩ := List.getElem?_eq_some_iff.1 hj
  have hp := List.pairwise_iff_getElem.1 h.distinct
  rcases Nat.lt_trichotomy i j with hij | rfl | hij
  · exact absurd hg' (by simp [hp i j hil hjl hij card hg])
  · rfl
  · exact absurd hg (by simp [hp j i hjl hil hij card hg'])

end Sharp

theorem rankKeys_sharp : Sharp rankKeys where
  ne_epsilon := by decide
  not_wild := by decide
  distinct := by
    have hn : Rank.numbered.Nodup := by decide
    rw [rankKeys, List.pairwise_map]
    apply hn.imp
    intro r s hne card hr
    rw [Bool.eq_false_iff, Ne, Guard.rank_fits_iff]
    exact fun hs => hne ((Guard.rank_fits_iff.1 hr).symm.trans hs)

theorem colorKeys_sharp : Sharp colorKeys where
  ne_epsilon := by decide
  not_wild := by decide
  distinct := by
    have hn : Color.real.Nodup := by decide
    rw [colorKeys, List.pairwise_map]
    apply hn.imp
    intro k l hne card hk
    rw [Bool.eq_false_iff, Ne, Guard.color_fits_iff]
    exact fun hl => hne ((Guard.color_fits_iff.1 hk).symm.trans hl)

namespace Track

/-- A track with a guard for each lane at each position. -/
structure Regular (t : Track) : Prop where
  size_pos : 0 < t.size
  width_pos : 0 < t.width
  sharp : ∀ pos, Sharp (t.wants pos)
  length_wants : ∀ pos < t.size, (t.wants pos).length = t.width

theorem group_regular {keys : List Guard} {size : Nat} (hs : Sharp keys) (hk : keys ≠ [])
    (h : 0 < size) : (group keys size).Regular :=
  ⟨h, List.length_pos_iff.2 hk, fun _ => hs, fun _ _ => rfl⟩

theorem run_regular {size : Nat} (h : 0 < size) (hs : size ≤ 12) : (run size).Regular where
  size_pos := h
  width_pos := Nat.sub_pos_of_lt (Nat.lt_succ_of_le hs)
  sharp pos := rankKeys_sharp.sublist ((List.take_sublist ..).trans (List.drop_sublist ..))
  length_wants pos hp := by
    have hl : rankKeys.length = 12 := rfl
    change pos < size at hp
    simp only [run, List.length_take, List.length_drop, hl]
    omega

variable {t : Track} {q r : Place} {key pos next : Nat} {card : Card} {cards : List Card}

theorem mem_wildPlaces : q ∈ t.wildPlaces ↔ ∃ pos < t.size, .wilds pos = q := by
  simp only [wildPlaces, List.mem_map, List.mem_range]

theorem mem_lanePlaces :
    q ∈ t.lanePlaces ↔ ∃ key < t.width, ∃ pos < t.size, .lane key pos = q := by
  simp only [lanePlaces, List.mem_flatMap, List.mem_map, List.mem_range]

theorem mem_places : q ∈ t.places ↔ q = .start ∨ q ∈ t.wildPlaces ∨ q ∈ t.lanePlaces := by
  unfold places
  split
  · rw [List.mem_cons, List.mem_append]
  · rw [List.mem_cons, List.mem_append, or_comm (a := q ∈ t.lanePlaces)]

theorem start_mem_places : .start ∈ t.places := mem_places.2 (.inl rfl)

theorem wilds_mem_places (hp : pos < t.size) : .wilds pos ∈ t.places :=
  mem_places.2 (.inr (.inl (mem_wildPlaces.2 ⟨pos, hp, rfl⟩)))

theorem lane_mem_places (hk : key < t.width) (hp : pos < t.size) : .lane key pos ∈ t.places :=
  mem_places.2 (.inr (.inr (mem_lanePlaces.2 ⟨key, hk, pos, hp, rfl⟩)))

theorem Regular.key_lt_width (ht : t.Regular) (hp : pos < t.size) {guard : Guard}
    (hk : (t.wants pos)[key]? = some guard) : key < t.width := by
  rw [← ht.length_wants pos hp]
  exact (List.getElem?_eq_some_iff.1 hk).1

def ahead (t : Track) : Place → Option Nat
  | .start => some 0
  | .wilds pos => t.after? pos
  | .lane _ pos => t.after? pos

theorem after?_eq_some (hp : pos < t.size) (h : t.after? pos = some next) :
    next < t.size ∧ t.size - (next + 1) = t.size - (pos + 1) - 1 := by
  unfold after? at h
  split at h
  · obtain rfl := Option.some.inj h
    omega
  · split at h
    · obtain rfl := Option.some.inj h
      omega
    · contradiction

theorem ahead_eq_some (ht : t.Regular) (hq : q ∈ t.places) (h : t.ahead q = some next) :
    next < t.size ∧ t.size - (next + 1) = t.size - q.taken - 1 := by
  rcases mem_places.1 hq with rfl | hq | hq
  · obtain rfl := Option.some.inj h
    exact ⟨ht.size_pos, rfl⟩
  · obtain ⟨pos, hp, rfl⟩ := mem_wildPlaces.1 hq
    exact after?_eq_some hp h
  · obtain ⟨key, -, pos, hp, rfl⟩ := mem_lanePlaces.1 hq
    exact after?_eq_some hp h

theorem mem_commit {e : Guard × Place} :
    e ∈ t.commit pos ↔ ∃ key, (t.wants pos)[key]? = some e.1 ∧ .lane key pos = e.2 := by
  simp only [commit, List.mem_mapIdx, List.getElem?_eq_some_iff, Prod.ext_iff]
  constructor
  · rintro ⟨key, hk, hg, hr⟩
    exact ⟨key, ⟨hk, hg⟩, hr⟩
  · rintro ⟨key, ⟨hk, hg⟩, hr⟩
    exact ⟨key, hk, hg, hr⟩

theorem mem_edges_of_undecided (hu : q.Undecided) {e : Guard × Place} :
    e ∈ t.edges q ↔ ∃ next, t.ahead q = some next ∧
      (e = (wild, .wilds next) ∨ e ∈ t.commit next) := by
  cases q with
  | start =>
    simp only [edges, ahead, Option.some.injEq, exists_eq_left']
    split
    · exact List.mem_cons
    · rw [List.mem_append, List.mem_singleton, or_comm]
  | wilds pos =>
    simp only [edges, ahead]
    cases t.after? pos with
    | none => simp
    | some next => simp
  | lane key pos => exact hu.elim

theorem mem_edges_lane {e : Guard × Place} :
    e ∈ t.edges (.lane key pos) ↔ ∃ next guard, t.after? pos = some next ∧
      (t.wants next)[key]? = some guard ∧
        (e = (guard, .lane key next) ∨ e = (wild, .lane key next)) := by
  simp only [edges]
  cases t.after? pos with
  | none => simp
  | some next => cases hk : (t.wants next)[key]? <;> simp [hk]

theorem need_plan (ht : t.Regular) : t.plan.need = t.size := by
  have hs := ht.size_pos
  have hm : (t.ends.map Place.taken).min? = some t.size := by
    rw [List.min?_eq_some_iff]
    constructor
    · -- the last position is as near with wild cards only as it is on a lane
      apply List.mem_map.2
      refine ⟨.wilds (t.size - 1), List.mem_append_right _ List.mem_cons_self, ?_⟩
      simp only [Place.taken]
      omega
    · intro n hn
      obtain ⟨q, hq, rfl⟩ := List.mem_map.1 hn
      rcases List.mem_append.1 hq with hq | hq
      · obtain ⟨key, -, rfl⟩ := List.mem_map.1 hq
        simp only [Place.taken]
        omega
      · obtain rfl := List.mem_singleton.1 hq
        simp only [Place.taken]
        omega
  simp only [Plan.need, plan, hm, Option.getD_some]

theorem missing_plan (ht : t.Regular) (q : Place) : t.plan.missing q = t.size - q.taken := by
  rw [Plan.missing, need_plan ht]

theorem mem_ends : q ∈ t.ends ↔
    (∃ key < t.width, .lane key (t.size - 1) = q) ∨ .wilds (t.size - 1) = q := by
  simp only [ends, List.mem_append, List.mem_map, List.mem_range, List.mem_singleton,
    eq_comm (a := q)]

theorem mem_ends_iff (ht : t.Regular) (hq : q ∈ t.places) :
    q ∈ t.ends ↔ t.size - q.taken = 0 := by
  have hs := ht.size_pos
  rw [mem_ends]
  rcases mem_places.1 hq with rfl | hq | hq
  · simp only [reduceCtorEq, and_false, exists_false, or_false, Place.taken, false_iff]
    omega
  · obtain ⟨pos, hp, rfl⟩ := mem_wildPlaces.1 hq
    simp only [reduceCtorEq, and_false, exists_false, false_or, Place.taken, Place.wilds.injEq]
    omega
  · obtain ⟨key, hk, pos, hp, rfl⟩ := mem_lanePlaces.1 hq
    simp only [reduceCtorEq, or_false, Place.taken, Place.lane.injEq]
    constructor
    · rintro ⟨_, -, -, rfl⟩
      omega
    · intro h
      exact ⟨key, hk, rfl, by omega⟩

/-- Every edge leads to the position ahead. -/
theorem edge_target (ht : t.Regular) (hq : q ∈ t.places) {e : Guard × Place}
    (he : e ∈ t.edges q) : ∃ next, t.ahead q = some next ∧ e.2 ∈ t.places ∧
      e.2.taken = next + 1 ∧ (e.1 = wild ∨ e.1 ∈ t.wants next) := by
  by_cases hu : q.Undecided
  · obtain ⟨next, ha, rfl | hc⟩ := (mem_edges_of_undecided hu).1 he
    · have hn := (ahead_eq_some ht hq ha).1
      exact ⟨next, ha, wilds_mem_places hn, rfl, .inl rfl⟩
    · have hn := (ahead_eq_some ht hq ha).1
      obtain ⟨key, hk, hr⟩ := mem_commit.1 hc
      rw [← hr]
      exact ⟨next, ha, lane_mem_places (ht.key_lt_width hn hk) hn, rfl,
        .inr (List.mem_of_getElem? hk)⟩
  · obtain ⟨key, pos, rfl⟩ := Place.exists_lane_of_not_undecided hu
    obtain ⟨next, guard, ha, hk, he⟩ := mem_edges_lane.1 he
    have hn := (ahead_eq_some ht hq ha).1
    have hm := lane_mem_places (ht.key_lt_width hn hk) hn
    rcases he with rfl | rfl
    · exact ⟨next, ha, hm, rfl, .inr (List.mem_of_getElem? hk)⟩
    · exact ⟨next, ha, hm, rfl, .inl rfl⟩

theorem edges_agree (ht : t.Regular) {e f : Guard × Place} (he : e ∈ t.edges q)
    (hf : f ∈ t.edges q) (hce : e.1.fits card = true) (hcf : f.1.fits card = true) :
    e.2 = f.2 := by
  by_cases hu : q.Undecided
  · obtain ⟨next, ha, he⟩ := (mem_edges_of_undecided hu).1 he
    obtain ⟨next', ha', hf⟩ := (mem_edges_of_undecided hu).1 hf
    obtain rfl := Option.some.inj (ha.symm.trans ha')
    -- a wild card leaves the lane open, and any other card fits the guard of one lane only
    rcases he with rfl | he <;> rcases hf with rfl | hf
    · rfl
    · obtain ⟨key, hk, -⟩ := mem_commit.1 hf
      exact absurd (wild_fits_iff.1 hce) ((ht.sharp next).ne_wild (List.mem_of_getElem? hk) hcf)
    · obtain ⟨key, hk, -⟩ := mem_commit.1 he
      exact absurd (wild_fits_iff.1 hcf) ((ht.sharp next).ne_wild (List.mem_of_getElem? hk) hce)
    · obtain ⟨key, hk, hr⟩ := mem_commit.1 he
      obtain ⟨key', hk', hr'⟩ := mem_commit.1 hf
      rw [← hr, ← hr', (ht.sharp next).key_unique hk hk' hce hcf]
  · -- both edges of a place on a lane lead to the same place
    obtain ⟨key, pos, rfl⟩ := Place.exists_lane_of_not_undecided hu
    obtain ⟨next, guard, ha, -, he⟩ := mem_edges_lane.1 he
    obtain ⟨next', guard', ha', -, hf⟩ := mem_edges_lane.1 hf
    obtain rfl := Option.some.inj (ha.symm.trans ha')
    rcases he with rfl | rfl <;> rcases hf with rfl | rfl <;> rfl

/-- Only the last position of a run has no position ahead. -/
theorem exists_ahead (hq : q ∈ t.places) (hn : t.size - q.taken ≠ 0) :
    ∃ next, t.ahead q = some next := by
  have after (pos : Nat) (hp : t.size - (pos + 1) ≠ 0) : t.after? pos = some (pos + 1) :=
    if_pos (by omega)
  rcases mem_places.1 hq with rfl | hq | hq
  · exact ⟨0, rfl⟩
  · obtain ⟨pos, -, rfl⟩ := mem_wildPlaces.1 hq
    exact ⟨_, after pos hn⟩
  · obtain ⟨key, -, pos, -, rfl⟩ := mem_lanePlaces.1 hq
    exact ⟨_, after pos hn⟩

theorem wild_step (ht : t.Regular) (hq : q ∈ t.places) (hn : t.size - q.taken ≠ 0) :
    ∃ r, t.plan.Step q Card.wild r := by
  obtain ⟨next, ha⟩ := exists_ahead hq hn
  have hp := (ahead_eq_some ht hq ha).1
  have hw := wild_fits_iff.2 (rfl : Card.wild = Card.wild)
  by_cases hu : q.Undecided
  · exact ⟨_, wild, (mem_edges_of_undecided hu).2 ⟨next, ha, .inl rfl⟩, hw⟩
  · obtain ⟨key, pos, rfl⟩ := Place.exists_lane_of_not_undecided hu
    rcases mem_places.1 hq with hq | hq | hq
    · contradiction
    · obtain ⟨_, -, hq⟩ := mem_wildPlaces.1 hq
      contradiction
    · obtain ⟨_, hk, _, -, ⟨⟩⟩ := mem_lanePlaces.1 hq
      have hl : key < (t.wants next).length := by rwa [ht.length_wants next hp]
      have he := List.getElem?_eq_getElem hl
      exact ⟨_, wild, mem_edges_lane.2 ⟨next, _, ha, he, .inr rfl⟩, hw⟩

theorem plan_orderly (ht : t.Regular) : t.plan.Orderly where
  numbered := t.plan_numbered
  start_mem := start_mem_places
  index_start := rfl
  target_mem q hq e he := by
    obtain ⟨next, -, hm, -⟩ := edge_target ht hq he
    exact hm
  guard_ne q hq e he := by
    obtain ⟨next, -, -, -, hw | hg⟩ := edge_target ht hq he
    · rw [hw]
      exact nofun
    · exact (ht.sharp next).ne_epsilon e.1 hg
  agree q _ e he f hf card := edges_agree ht he hf
  need_pos := by
    rw [need_plan ht]
    exact ht.size_pos
  mem_ends q hq := by
    rw [missing_plan ht]
    exact mem_ends_iff ht hq
  missing_edge q hq e he := by
    obtain ⟨next, ha, -, hr, -⟩ := edge_target ht hq he
    rw [missing_plan ht, missing_plan ht, hr]
    exact (ahead_eq_some ht hq ha).2
  wild_step q hq he := wild_step ht hq (mt (mem_ends_iff ht hq).2 he)

end Track
end Meld.Blueprint
