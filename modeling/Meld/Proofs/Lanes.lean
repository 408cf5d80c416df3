import Meld.Proofs.Tracks
import Meld.Phase.Meaning

namespace Meld

open Blueprint

namespace Blueprint.Track

variable {t : Track} {q r : Place} {key pos next : Nat} {card : Card}

def Follows (t : Track) (key : Nat) : Option Nat → List Card → Prop
  | _, [] => True
  | none, _ :: _ => False
  | some pos, card :: cards =>
    (card = Card.wild ∨ ∃ guard, (t.wants pos)[key]? = some guard ∧ guard.fits card = true) ∧
      t.Follows key (t.after? pos) cards

theorem step_lane : t.plan.Step (.lane key pos) card r ↔ ∃ next guard, t.after? pos = some next ∧
    (t.wants next)[key]? = some guard ∧ (card = Card.wild ∨ guard.fits card = true) ∧
      .lane key next = r := by
  constructor
  · rintro ⟨_, he, hf⟩
    obtain ⟨next, guard, ha, hk, he | he⟩ := mem_edges_lane.1 he <;> cases he
    · exact ⟨next, _, ha, hk, .inr hf, rfl⟩
    · exact ⟨next, guard, ha, hk, .inl (wild_fits_iff.1 hf), rfl⟩
  · rintro ⟨next, guard, ha, hk, hf | hf, rfl⟩
    · exact ⟨wild, mem_edges_lane.2 ⟨next, guard, ha, hk, .inr rfl⟩, wild_fits_iff.2 hf⟩
    · exact ⟨guard, mem_edges_lane.2 ⟨next, guard, ha, hk, .inl rfl⟩, hf⟩

theorem step_undecided (hu : q.Undecided) : t.plan.Step q card r ↔ ∃ next, t.ahead q = some next ∧
    (card = Card.wild ∧ .wilds next = r ∨ ∃ key guard, (t.wants next)[key]? = some guard ∧
      guard.fits card = true ∧ .lane key next = r) := by
  constructor
  · rintro ⟨guard, he, hf⟩
    obtain ⟨next, ha, he | he⟩ := (mem_edges_of_undecided hu).1 he
    · cases he
      exact ⟨next, ha, .inl ⟨wild_fits_iff.1 hf, rfl⟩⟩
    · obtain ⟨key, hk, hr⟩ := mem_commit.1 he
      exact ⟨next, ha, .inr ⟨key, guard, hk, hf, hr⟩⟩
  · rintro ⟨next, ha, ⟨hc, rfl⟩ | ⟨key, guard, hk, hf, rfl⟩⟩
    · exact ⟨wild, (mem_edges_of_undecided hu).2 ⟨next, ha, .inl rfl⟩, wild_fits_iff.2 hc⟩
    · exact ⟨guard, (mem_edges_of_undecided hu).2 ⟨next, ha, .inr (mem_commit.2 ⟨key, hk, rfl⟩)⟩,
        hf⟩

theorem takes_lane (ht : t.Regular) (hk : key < t.width) (hp : pos < t.size)
    (cards : List Card) :
    t.plan.Takes (.lane key pos) cards ↔ t.Follows key (t.after? pos) cards := by
  induction cards generalizing pos with
  | nil => simp only [Plan.Takes, Follows]
  | cons card cards ih =>
    simp only [Plan.Takes, step_lane]
    cases ha : t.after? pos with
    | none => simp [Follows]
    | some next =>
      have hn := (after?_eq_some hp ha).1
      have hl : key < (t.wants next).length := by rwa [ht.length_wants next hn]
      obtain ⟨guard, hg⟩ : ∃ guard, (t.wants next)[key]? = some guard :=
        ⟨_, List.getElem?_eq_getElem hl⟩
      rw [Follows, ← ih hn]
      constructor
      · rintro ⟨r, ⟨_, guard, ⟨⟩, hg, hc, rfl⟩, hr⟩
        exact ⟨hc.imp_right fun hf => ⟨guard, hg, hf⟩, hr⟩
      · rintro ⟨hc | ⟨guard, hg, hf⟩, hr⟩
        · exact ⟨_, ⟨next, guard, rfl, hg, .inl hc, rfl⟩, hr⟩
        · exact ⟨_, ⟨next, guard, rfl, hg, .inr hf, rfl⟩, hr⟩

/-- While only wild cards have been taken, every lane is still possible. -/
theorem takes_undecided (ht : t.Regular) (hu : q.Undecided) (hq : q ∈ t.places)
    (cards : List Card) :
    t.plan.Takes q cards ↔ ∃ key < t.width, t.Follows key (t.ahead q) cards := by
  induction cards generalizing q with
  | nil =>
    simp only [Plan.Takes, Follows, and_true, true_iff]
    exact ⟨0, ht.width_pos⟩
  | cons card cards ih =>
    simp only [Plan.Takes, step_undecided hu]
    cases ha : t.ahead q with
    | none => simp [Follows]
    | some next =>
      have hn := (ahead_eq_some ht hq ha).1
      have hw : .wilds next ∈ t.places := wilds_mem_places hn
      -- a wild card leaves the lane to the cards that follow, and a real one settles it
      constructor
      · rintro ⟨_, ⟨_, ⟨⟩, ⟨hc, rfl⟩ | ⟨key, guard, hk, hf, rfl⟩⟩, hr⟩
        · obtain ⟨key, hk, hfo⟩ := (ih (q := .wilds next) trivial hw).1 hr
          exact ⟨key, hk, .inl hc, hfo⟩
        · have hl := ht.key_lt_width hn hk
          exact ⟨key, hl, .inr ⟨guard, hk, hf⟩, (takes_lane ht hl hn cards).1 hr⟩
      · rintro ⟨key, hk, hc | ⟨guard, hg, hf⟩, hfo⟩
        · exact ⟨_, ⟨next, rfl, .inl ⟨hc, rfl⟩⟩,
            (ih (q := .wilds next) trivial hw).2 ⟨key, hk, hfo⟩⟩
        · exact ⟨_, ⟨next, rfl, .inr ⟨key, guard, hg, hf, rfl⟩⟩,
            (takes_lane ht hk hn cards).2 hfo⟩

theorem takes_start (ht : t.Regular) (cards : List Card) :
    t.plan.Takes .start cards ↔ ∃ key < t.width, t.Follows key (some 0) cards :=
  takes_undecided (q := .start) ht trivial start_mem_places cards

/-- Positions of an open group do not differ in what they take. -/
theorem follows_group (keys : List Guard) (size key pos : Nat) (cards : List Card) :
    (group keys size).Follows key (some pos) cards ↔ ∀ card ∈ cards,
      card = Card.wild ∨ ∃ guard, keys[key]? = some guard ∧ guard.fits card = true := by
  induction cards generalizing pos with
  | nil => simp [Follows]
  | cons card cards ih =>
    obtain ⟨next, ha⟩ : ∃ next, (group keys size).after? pos = some next := by
      unfold after? group
      split
      · exact ⟨_, rfl⟩
      · exact ⟨_, rfl⟩
    rw [Follows, ha, ih, List.forall_mem_cons]
    rfl

theorem takes_group {keys : List Guard} {size : Nat} (hs : Sharp keys) (hk : keys ≠ [])
    (h : 0 < size) (cards : List Card) :
    (group keys size).plan.Takes .start cards ↔
      ∃ guard ∈ keys, ∀ card ∈ cards, card = Card.wild ∨ guard.fits card = true := by
  rw [takes_start (group_regular hs hk h)]
  simp only [follows_group]
  constructor
  · rintro ⟨key, hl, hc⟩
    refine ⟨_, List.getElem_mem hl, fun card hm => (hc card hm).imp_right ?_⟩
    rintro ⟨guard, hg, hf⟩
    obtain ⟨_, rfl⟩ := List.getElem?_eq_some_iff.1 hg
    exact hf
  · rintro ⟨guard, hg, hc⟩
    obtain ⟨key, hl, rfl⟩ := List.getElem_of_mem hg
    exact ⟨key, hl, fun card hm => (hc card hm).imp_right
      fun hf => ⟨_, List.getElem?_eq_getElem hl, hf⟩⟩

end Blueprint.Track

theorem Blueprint.rankKeys_getElem_fits {i : Nat} {card : Card} :
    (∃ guard, rankKeys[i]? = some guard ∧ guard.fits card = true) ↔
      card.rank.value? = some (i + 1) := by
  simp only [rankKeys, Rank.numbered, List.getElem?_map, Option.map_eq_some_iff]
  constructor
  · rintro ⟨_, ⟨_, ⟨step, hs, rfl⟩, rfl⟩, hf⟩
    rw [Guard.rank_fits_iff] at hf
    obtain ⟨hl, rfl⟩ := List.getElem?_eq_some_iff.1 hs
    simp [hf, Rank.value?]
  · intro hv
    cases hr : card.rank with
    | number step =>
      simp only [hr, Rank.value?, Option.some.injEq, Nat.add_right_cancel_iff] at hv
      refine ⟨_, ⟨_, ⟨step, ?_, rfl⟩, rfl⟩, Guard.rank_fits_iff.2 hr⟩
      simp [← hv]
    | skip => simp [hr, Rank.value?] at hv
    | wild => simp [hr, Rank.value?] at hv

/-- The cards have one rank after the other, the first of them the one above `below`. -/
def Consecutive (below : Nat) (cards : List Card) : Prop :=
  below + cards.length ≤ 12 ∧
    ∀ i (h : i < cards.length), cards[i] = Card.wild ∨ cards[i].rank.value? = some (below + i + 1)

theorem Shape.groups_run_iff {cards : List Card} :
    run.Groups cards ↔ ∃ below, Consecutive below cards := Iff.rfl

theorem consecutive_nil {below : Nat} : Consecutive below [] ↔ below ≤ 12 := by
  simp [Consecutive]

theorem consecutive_cons {below : Nat} {card : Card} {cards : List Card} :
    Consecutive below (card :: cards) ↔
      (card = Card.wild ∨ card.rank.value? = some (below + 1)) ∧ Consecutive (below + 1) cards := by
  have hl : below + (card :: cards).length = below + 1 + cards.length := by
    rw [List.length_cons]
    omega
  unfold Consecutive
  rw [hl, and_left_comm]
  apply and_congr_right
  intro _
  constructor
  · intro h
    refine ⟨h 0 (Nat.zero_lt_succ _), fun i hi => ?_⟩
    rw [Nat.add_right_comm below 1]
    exact h (i + 1) (Nat.succ_lt_succ hi)
  · rintro ⟨h0, h⟩ i hi
    cases i with
    | zero => exact h0
    | succ i =>
      rw [← Nat.add_assoc, Nat.add_right_comm below i]
      exact h i (Nat.lt_of_succ_lt_succ hi)

theorem Shape.groups_set_iff {cards : List Card} : set.Groups cards ↔
    ∃ guard ∈ rankKeys, ∀ card ∈ cards, card = Card.wild ∨ guard.fits card = true := by
  constructor
  · rintro ⟨step, h⟩
    refine ⟨.rank (.number step), by simp [rankKeys, Rank.numbered], ?_⟩
    simpa only [Guard.rank_fits_iff] using h
  · rintro ⟨guard, hg, h⟩
    simp only [rankKeys, Rank.numbered, List.map_map, List.mem_map] at hg
    obtain ⟨step, -, rfl⟩ := hg
    exact ⟨step, fun card hc => (h card hc).imp_right Guard.rank_fits_iff.1⟩

theorem Shape.groups_color_iff {cards : List Card} : color.Groups cards ↔
    ∃ guard ∈ colorKeys, ∀ card ∈ cards, card = Card.wild ∨ guard.fits card = true := by
  constructor
  · rintro ⟨k, hk, h⟩
    refine ⟨.color k, List.mem_map.2 ⟨k, hk, rfl⟩, ?_⟩
    simpa only [Guard.color_fits_iff] using h
  · rintro ⟨guard, hg, h⟩
    obtain ⟨k, hk, rfl⟩ := List.mem_map.1 hg
    exact ⟨k, hk, fun card hc => (h card hc).imp_right Guard.color_fits_iff.1⟩

namespace Blueprint.Track

theorem follows_run {size key pos : Nat} (hs : size ≤ 12) (hk : key < 13 - size)
    (hp : pos < size) (cards : List Card) :
    (run size).Follows key (some pos) cards ↔
      pos + cards.length ≤ size ∧ Consecutive (key + pos) cards := by
  induction cards generalizing pos with
  | nil =>
    rw [consecutive_nil, List.length_nil, Follows]
    simp only [true_iff]
    omega
  | cons card cards ih =>
    have hw : ((run size).wants pos)[key]? = rankKeys[key + pos]? := by
      simp only [run, List.getElem?_take_of_lt hk, List.getElem?_drop, Nat.add_comm]
    rw [Follows, hw, rankKeys_getElem_fits, consecutive_cons, List.length_cons, and_left_comm]
    apply and_congr_right
    intro _
    by_cases hn : pos + 1 < size
    · have ha : (run size).after? pos = some (pos + 1) := if_pos hn
      rw [ha, ih hn, Nat.add_assoc, Nat.add_comm 1, ← Nat.add_assoc key]
    · -- a run takes no card after its last position
      have ha : (run size).after? pos = none := if_neg hn
      rw [ha]
      cases cards with
      | nil =>
        rw [Follows, consecutive_nil, List.length_nil]
        simp only [true_iff]
        omega
      | cons card cards =>
        rw [Follows, List.length_cons]
        simp only [false_iff]
        omega

theorem takes_run {size : Nat} (h : 0 < size) (hs : size ≤ 12) (cards : List Card) :
    (run size).plan.Takes .start cards ↔
      cards.length ≤ size ∧ ∃ below, below + size ≤ 12 ∧ Consecutive below cards := by
  rw [takes_start (run_regular h hs)]
  constructor
  · rintro ⟨key, hk, hf⟩
    change key < 13 - size at hk
    rw [follows_run hs hk h, Nat.zero_add, Nat.add_zero] at hf
    exact ⟨hf.1, key, by omega, hf.2⟩
  · rintro ⟨hl, key, hk, hc⟩
    have hlt : key < 13 - size := by omega
    refine ⟨key, hlt, ?_⟩
    rw [follows_run hs hlt h, Nat.zero_add, Nat.add_zero]
    exact ⟨hl, hc⟩

end Blueprint.Track
end Meld
