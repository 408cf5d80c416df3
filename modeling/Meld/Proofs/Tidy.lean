import Mathlib.Data.List.Nodup
import Meld.Proofs.Compiled

namespace Meld

/-- Only an epsilon transition asks for no card. -/
theorem Guard.exists_fits {g : Guard} (h : g ≠ .epsilon) : ∃ card, g.fits card = true := by
  cases g with
  | epsilon => exact absurd rfl h
  | card c => exact ⟨c, decide_eq_true rfl⟩
  | rank r =>
    cases r with
    | number step => exact ⟨⟨.red, .number step, by simp, by simp⟩, decide_eq_true rfl⟩
    | skip => exact ⟨Card.skip, rfl⟩
    | wild => exact ⟨Card.wild, rfl⟩
  | color k =>
    by_cases hw : k = .wild
    · exact ⟨Card.wild, decide_eq_true hw⟩
    · by_cases hs : k = .skip
      · exact ⟨Card.skip, decide_eq_true hs⟩
      · exact ⟨⟨k, .number 0, by simp [hw], by simp [hs]⟩, decide_eq_true rfl⟩
  | otherwise => exact ⟨Card.wild, rfl⟩

namespace Blueprint

namespace Plan

inductive Reaches (p : Plan) : Place → Prop where
  | start : Reaches p .start
  | edge {q r : Place} {guard : Guard} : Reaches p q → (guard, r) ∈ p.edges q → Reaches p r

/-- A plan with nothing in it twice, and no place that cannot be reached. -/
structure Tidy (p : Plan) : Prop where
  places_nodup : p.places.Nodup
  ends_subset : p.ends ⊆ p.places
  ends_nodup : p.ends.Nodup
  guards_nodup : ∀ q ∈ p.places, ((p.edges q).map Prod.fst).Nodup
  reaches : ∀ q ∈ p.places, p.Reaches q

end Plan

namespace Sharp

variable {keys : List Guard}

theorem nodup (h : Sharp keys) : keys.Nodup := by
  refine h.distinct.imp_of_mem fun {g g'} hg _ hd => ?_
  rintro rfl
  obtain ⟨card, hf⟩ := Guard.exists_fits (h.ne_epsilon g hg)
  exact Bool.noConfusion (hf.symm.trans (hd card hf))

theorem wild_not_mem (h : Sharp keys) : wild ∉ keys :=
  fun hm => Bool.noConfusion (h.not_wild wild hm)

end Sharp

namespace Track

variable {t : Track} {q : Place}

theorem map_fst_commit (t : Track) (pos : Nat) : (t.commit pos).map Prod.fst = t.wants pos := by
  apply List.ext_getElem?
  intro i
  simp only [commit, List.getElem?_map, List.getElem?_mapIdx, Option.map_map]
  exact Option.map_id'

theorem guards_nodup (ht : t.Regular) (q : Place) : ((t.edges q).map Prod.fst).Nodup := by
  have next_nodup (pos : Nat) : (wild :: t.wants pos).Nodup :=
    List.nodup_cons.2 ⟨(ht.sharp pos).wild_not_mem, (ht.sharp pos).nodup⟩
  cases q with
  | start =>
    simp only [edges]
    split
    · rw [List.map_cons, map_fst_commit]
      exact next_nodup 0
    · rw [List.map_append, map_fst_commit]
      exact (List.perm_append_singleton wild _).nodup_iff.2 (next_nodup 0)
  | wilds pos =>
    simp only [edges]
    split
    · exact List.nodup_nil
    · next next _ =>
      rw [List.map_cons, map_fst_commit]
      exact next_nodup next
  | lane key pos =>
    simp only [edges]
    split
    · exact List.nodup_nil
    · next next _ =>
      split
      · exact List.nodup_nil
      · next guard hk =>
        have hne : guard ≠ wild := by
          rintro rfl
          exact (ht.sharp next).wild_not_mem (List.mem_of_getElem? hk)
        simpa using hne

theorem wildPlaces_nodup (t : Track) : t.wildPlaces.Nodup :=
  List.nodup_range.map fun _ _ => Place.wilds.inj

theorem lanePlaces_nodup (t : Track) : t.lanePlaces.Nodup := by
  rw [lanePlaces, List.nodup_flatMap]
  refine ⟨fun key _ => List.nodup_range.map fun _ _ h => (Place.lane.inj h).2,
    List.nodup_range.imp fun {key key'} hne r hr hr' => ?_⟩
  obtain ⟨pos, -, rfl⟩ := List.mem_map.1 hr
  obtain ⟨pos', -, h⟩ := List.mem_map.1 hr'
  exact hne (Place.lane.inj h).1.symm

theorem places_nodup (t : Track) : t.places.Nodup := by
  have apart : t.wildPlaces.Disjoint t.lanePlaces := by
    intro q hw hl
    obtain ⟨pos, -, rfl⟩ := mem_wildPlaces.1 hw
    obtain ⟨_, -, _, -, h⟩ := mem_lanePlaces.1 hl
    contradiction
  have start_new : .start ∉ t.wildPlaces ++ t.lanePlaces := by
    intro h
    rcases List.mem_append.1 h with h | h
    · obtain ⟨_, -, h⟩ := mem_wildPlaces.1 h
      contradiction
    · obtain ⟨_, -, _, -, h⟩ := mem_lanePlaces.1 h
      contradiction
  have all : (.start :: (t.wildPlaces ++ t.lanePlaces)).Nodup :=
    List.nodup_cons.2 ⟨start_new, t.wildPlaces_nodup.append t.lanePlaces_nodup apart⟩
  unfold places
  split
  · exact all
  · exact (List.perm_append_comm.cons _).nodup_iff.2 all

theorem ends_nodup (t : Track) : t.ends.Nodup := by
  rw [ends, (List.perm_append_singleton _ _).nodup_iff, List.nodup_cons]
  constructor
  · intro h
    obtain ⟨_, -, h⟩ := List.mem_map.1 h
    contradiction
  · exact List.nodup_range.map fun _ _ h => (Place.lane.inj h).1

theorem ends_subset_places (ht : t.Regular) : t.ends ⊆ t.places := by
  have last : t.size - 1 < t.size := Nat.sub_lt ht.size_pos Nat.zero_lt_one
  intro q hq
  rcases mem_ends.1 hq with ⟨key, hk, rfl⟩ | rfl
  · exact lane_mem_places hk last
  · exact wilds_mem_places last

/-- Along wild cards, and along the cards of a lane, each position is reached from the one before
it. -/
theorem plan_reaches (ht : t.Regular) (hq : q ∈ t.places) : t.plan.Reaches q := by
  rcases mem_places.1 hq with rfl | hw | hl
  · exact .start
  · obtain ⟨pos, hp, rfl⟩ := mem_wildPlaces.1 hw
    clear hq hw
    induction pos with
    | zero =>
      exact .edge .start ((mem_edges_of_undecided (q := .start) trivial).2 ⟨0, rfl, .inl rfl⟩)
    | succ pos ih =>
      exact .edge (ih (Nat.lt_of_succ_lt hp))
        ((mem_edges_of_undecided (q := .wilds pos) trivial).2 ⟨pos + 1, if_pos hp, .inl rfl⟩)
  · obtain ⟨key, hk, pos, hp, rfl⟩ := mem_lanePlaces.1 hl
    clear hq hl
    have want {pos : Nat} (hp : pos < t.size) : ∃ guard, (t.wants pos)[key]? = some guard :=
      ⟨_, List.getElem?_eq_getElem (by rwa [ht.length_wants pos hp])⟩
    induction pos with
    | zero =>
      obtain ⟨guard, hg⟩ := want hp
      have hc : (guard, .lane key 0) ∈ t.commit 0 := mem_commit.2 ⟨key, hg, rfl⟩
      exact .edge .start ((mem_edges_of_undecided (q := .start) trivial).2 ⟨0, rfl, .inr hc⟩)
    | succ pos ih =>
      obtain ⟨guard, hg⟩ := want hp
      exact .edge (ih (Nat.lt_of_succ_lt hp))
        (mem_edges_lane.2 ⟨pos + 1, guard, if_pos hp, hg, .inl rfl⟩)

theorem plan_tidy (ht : t.Regular) : t.plan.Tidy where
  places_nodup := t.places_nodup
  ends_subset := ends_subset_places ht
  ends_nodup := t.ends_nodup
  guards_nodup q _ := guards_nodup ht q
  reaches _ hq := plan_reaches ht hq

end Track

namespace AnyRun

theorem anyRun_reaches {q : Place} (hq : q ∈ anyRun.places) : anyRun.Reaches q := by
  simp only [anyRun, List.cons_append, List.mem_cons, List.mem_append, List.mem_map,
    List.mem_range] at hq
  rcases hq with rfl | ⟨pos, hp, rfl⟩ | ⟨pos, hp, rfl⟩
  · exact .start
  · have first : (rankKeys[pos], .lane 0 pos) ∈ rankEdges 0 :=
      mem_rankEdges.2 ⟨pos, Nat.zero_le pos, List.getElem?_eq_getElem hp, rfl⟩
    exact .edge .start ((mem_edges_of_undecided (q := .start) trivial).2 (.inr first))
  · induction pos with
    | zero =>
      exact .edge .start ((mem_edges_of_undecided (q := .start) trivial).2 (.inl ⟨hp, rfl⟩))
    | succ pos ih =>
      exact .edge (ih (Nat.lt_of_succ_lt hp))
        ((mem_edges_of_undecided (q := .wilds pos) trivial).2 (.inl ⟨hp, rfl⟩))

theorem anyRun_tidy : anyRun.Tidy where
  places_nodup := by decide
  ends_subset := by decide
  ends_nodup := by decide
  guards_nodup := by decide
  reaches _ hq := anyRun_reaches hq

end AnyRun
end Blueprint

open Blueprint

theorem Phase.groups_tidy {p : Phase} (h : p.Legal) : ∀ q ∈ p.groups, q.Tidy := by
  intro q hq
  rcases mem_groups h hq with ⟨t, ht, rfl⟩ | rfl
  · exact Track.plan_tidy ht
  · exact AnyRun.anyRun_tidy

end Meld
