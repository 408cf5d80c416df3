import Meld.Proofs.Lanes

namespace Meld.Blueprint.AnyRun

variable {q r : Place} {key pos : Nat} {card : Card} {cards : List Card}

theorem mem_rankEdges {first : Nat} {e : Guard × Place} : e ∈ rankEdges first ↔
    ∃ pos, first ≤ pos ∧ rankKeys[pos]? = some e.1 ∧ .lane 0 pos = e.2 := by
  have hm (pos : Nat) : (rankKeys.mapIdx fun pos guard => (guard, Place.lane 0 pos))[pos]? =
      some e ↔ rankKeys[pos]? = some e.1 ∧ .lane 0 pos = e.2 := by
    simp only [List.getElem?_mapIdx, Option.map_eq_some_iff, Prod.ext_iff]
    constructor
    · rintro ⟨guard, hg, rfl, hr⟩
      exact ⟨hg, hr⟩
    · rintro ⟨hg, hr⟩
      exact ⟨e.1, hg, rfl, hr⟩
  rw [rankEdges, List.mem_iff_getElem?]
  simp only [List.getElem?_drop, hm]
  constructor
  · rintro ⟨i, h⟩
    exact ⟨first + i, Nat.le_add_right .., h⟩
  · rintro ⟨pos, hp, h⟩
    obtain ⟨i, rfl⟩ := Nat.exists_eq_add_of_le hp
    exact ⟨i, h⟩

theorem mem_edges_of_undecided (hu : q.Undecided) {e : Guard × Place} : e ∈ anyRun.edges q ↔
    (q.taken < 12 ∧ e = (wild, .wilds q.taken)) ∨ e ∈ rankEdges q.taken := by
  cases q with
  | start =>
    simp only [anyRun, Place.taken, List.mem_append, List.mem_singleton]
    rw [or_comm]
    simp
  | wilds pos =>
    simp only [anyRun, Place.taken, List.mem_append]
    split <;> simp [*]
  | lane key pos => exact hu.elim

theorem step_undecided (hu : q.Undecided) : anyRun.Step q card r ↔
    (q.taken < 12 ∧ card = Card.wild ∧ .wilds q.taken = r) ∨
      ∃ pos, q.taken ≤ pos ∧ card.rank.value? = some (pos + 1) ∧ .lane 0 pos = r := by
  simp only [Plan.Step, mem_edges_of_undecided hu, mem_rankEdges]
  constructor
  · rintro ⟨guard, ⟨hq, he⟩ | ⟨pos, hp, hk, hr⟩, hf⟩
    · cases he
      exact .inl ⟨hq, wild_fits_iff.1 hf, rfl⟩
    · exact .inr ⟨pos, hp, rankKeys_getElem_fits.1 ⟨guard, hk, hf⟩, hr⟩
  · rintro (⟨hq, hc, rfl⟩ | ⟨pos, hp, hv, hr⟩)
    · exact ⟨wild, .inl ⟨hq, rfl⟩, wild_fits_iff.2 hc⟩
    · obtain ⟨guard, hk, hf⟩ := rankKeys_getElem_fits.2 hv
      exact ⟨guard, .inr ⟨pos, hp, hk, hr⟩, hf⟩

theorem mem_edges_lane {e : Guard × Place} : e ∈ anyRun.edges (.lane key pos) ↔
    ∃ guard, rankKeys[pos + 1]? = some guard ∧
      (e = (guard, .lane 0 (pos + 1)) ∨ e = (wild, .lane 0 (pos + 1))) := by
  simp only [anyRun]
  cases hk : rankKeys[pos + 1]? <;> simp

theorem step_lane : anyRun.Step (.lane key pos) card r ↔ pos + 1 < 12 ∧
    (card = Card.wild ∨ card.rank.value? = some (pos + 1 + 1)) ∧ .lane 0 (pos + 1) = r := by
  have hl : rankKeys.length = 12 := rfl
  simp only [Plan.Step, mem_edges_lane]
  constructor
  · rintro ⟨_, ⟨guard, hk, he | he⟩, hf⟩ <;> cases he
    · exact ⟨(List.getElem?_eq_some_iff.1 hk).1, .inr (rankKeys_getElem_fits.1 ⟨_, hk, hf⟩), rfl⟩
    · exact ⟨(List.getElem?_eq_some_iff.1 hk).1, .inl (wild_fits_iff.1 hf), rfl⟩
  · rintro ⟨hp, hc | hv, rfl⟩
    · exact ⟨wild, ⟨_, List.getElem?_eq_getElem hp, .inr rfl⟩, wild_fits_iff.2 hc⟩
    · obtain ⟨guard, hk, hf⟩ := rankKeys_getElem_fits.2 hv
      exact ⟨guard, ⟨guard, hk, .inl rfl⟩, hf⟩

theorem step_unique {r' : Place} (hr : anyRun.Step q card r) (hr' : anyRun.Step q card r') :
    r = r' := by
  by_cases hu : q.Undecided
  · rw [step_undecided hu] at hr hr'
    rcases hr with ⟨-, rfl, rfl⟩ | ⟨pos, -, hv, rfl⟩ <;>
      rcases hr' with ⟨-, hc, rfl⟩ | ⟨pos', -, hv', rfl⟩
    · rfl
    · -- a wild card has no value
      cases hv'
    · rw [hc] at hv
      cases hv
    · rw [hv, Option.some.injEq, Nat.add_right_cancel_iff] at hv'
      rw [hv']
  · obtain ⟨key, pos, rfl⟩ := Place.exists_lane_of_not_undecided hu
    exact (step_lane.1 hr).2.2.symm.trans (step_lane.1 hr').2.2

theorem anyRun_orderly : anyRun.Orderly where
  numbered := anyRun_numbered
  start_mem := List.mem_cons_self
  index_start := rfl
  target_mem := by decide
  guard_ne := by decide
  agree q _ e he f hf card hce hcf := step_unique ⟨e.1, he, hce⟩ ⟨f.1, hf, hcf⟩
  need_pos := by decide
  mem_ends := by decide
  missing_edge := by decide
  wild_step q hq he := by
    -- all places but the start are ends
    have forms : ∀ q ∈ anyRun.places, q ∉ anyRun.ends → q = .start := by decide
    obtain rfl := forms q hq he
    exact ⟨_, (step_undecided (q := .start) trivial).2 (.inl ⟨Nat.zero_lt_succ _, rfl, rfl⟩)⟩

theorem takes_lane (hp : pos < 12) (cards : List Card) :
    anyRun.Takes (.lane key pos) cards ↔ Consecutive (pos + 1) cards := by
  induction cards generalizing key pos with
  | nil => simp only [Plan.Takes, consecutive_nil, Nat.succ_le_of_lt hp]
  | cons card cards ih =>
    simp only [Plan.Takes, step_lane, consecutive_cons]
    constructor
    · rintro ⟨_, ⟨hn, hc, rfl⟩, hr⟩
      exact ⟨hc, (ih hn).1 hr⟩
    · rintro ⟨hc, hr⟩
      have hn : pos + 1 < 12 := Nat.lt_of_succ_le (Nat.le_of_add_right_le hr.1)
      exact ⟨_, ⟨hn, hc, rfl⟩, (ih hn).2 hr⟩

/-- After wild cards only, the run may have begun at any rank that leaves room for them. -/
theorem takes_undecided (hu : q.Undecided) (hq : q.taken ≤ 12) (cards : List Card) :
    anyRun.Takes q cards ↔ ∃ below, Consecutive (below + q.taken) cards := by
  induction cards generalizing q with
  | nil =>
    simp only [Plan.Takes, consecutive_nil, true_iff]
    exact ⟨0, by omega⟩
  | cons card cards ih =>
    simp only [Plan.Takes, step_undecided hu, consecutive_cons]
    constructor
    · rintro ⟨_, ⟨hn, hc, rfl⟩ | ⟨pos, hp, hv, rfl⟩, hr⟩
      · obtain ⟨below, hb⟩ := (ih (q := .wilds q.taken) trivial hn).1 hr
        exact ⟨below, .inl hc, hb⟩
      · have hlt : pos < 12 := by
          obtain ⟨guard, hk, -⟩ := rankKeys_getElem_fits.2 hv
          exact (List.getElem?_eq_some_iff.1 hk).1
        obtain ⟨below, rfl⟩ := Nat.exists_eq_add_of_le' hp
        exact ⟨below, .inr hv, (takes_lane hlt cards).1 hr⟩
    · rintro ⟨below, hc | hv, hb⟩
      · have hn : q.taken < 12 := by
          have hle := hb.1
          omega
        exact ⟨_, .inl ⟨hn, hc, rfl⟩, (ih (q := .wilds q.taken) trivial hn).2 ⟨below, hb⟩⟩
      · have hn : below + q.taken < 12 := by
          have hle := hb.1
          omega
        exact ⟨_, .inr ⟨_, Nat.le_add_left .., hv, rfl⟩, (takes_lane hn cards).2 hb⟩

theorem takes_start (cards : List Card) :
    anyRun.Takes .start cards ↔ Shape.run.Groups cards :=
  takes_undecided (q := .start) trivial (Nat.zero_le _) cards

end Meld.Blueprint.AnyRun
