import Meld.Proofs.AnyRun
import Meld.Proofs.Legal
import Meld.Proofs.Progress
import Meld.Blueprint.Compile

namespace Meld

open Blueprint Automaton

theorem Component.track_size (c : Component) : c.track.size = c.size.toNat := by
  unfold track
  split <;> rfl

theorem Component.track_regular {c : Component} (h : c.InRange) : c.track.Regular := by
  obtain ⟨hp, hl⟩ := h
  unfold track
  split
  · exact Track.group_regular rankKeys_sharp (by decide) hp
  · exact Track.group_regular colorKeys_sharp (by decide) hp
  · next hs =>
    rw [hs] at hl
    exact Track.run_regular hp hl

/-- A group of the size that is asked for, or more, is taken just when its cards belong together. -/
theorem Component.takes_iff {c : Component} (h : c.InRange) {cards : List Card}
    (hl : c.size.toNat ≤ cards.length) : c.track.plan.Takes .start cards ↔
      (c.shape = .run → cards.length = c.size.toNat) ∧ c.shape.Groups cards := by
  obtain ⟨hp, hm⟩ := h
  unfold track
  split
  · next hs =>
    rw [Track.takes_group rankKeys_sharp (by decide) hp, hs, Shape.groups_set_iff]
    simp only [reduceCtorEq, false_imp_iff, true_and]
  · next hs =>
    rw [Track.takes_group colorKeys_sharp (by decide) hp, hs, Shape.groups_color_iff]
    simp only [reduceCtorEq, false_imp_iff, true_and]
  · next hs =>
    rw [hs] at hm
    rw [Track.takes_run hp hm, hs, Shape.groups_run_iff]
    simp only [true_imp_iff]
    constructor
    · rintro ⟨hle, below, -, hc⟩
      exact ⟨Nat.le_antisymm hle hl, below, hc⟩
    · rintro ⟨he, below, hc⟩
      exact ⟨Nat.le_of_eq he, below, he ▸ hc.1, hc⟩

/-- An unsized set or color group has the states of one of a single card. -/
theorem Blueprint.states_anyGroup {keys : List Guard} (hs : Sharp keys) (hk : keys ≠ [])
    (base : Nat) (exit : Exit) :
    (anyGroup keys).states base exit = (Track.group keys 1).plan.states base exit := by
  have hw : (Track.group keys 1).wildPlaces = [.wilds 0] := rfl
  have hl : (Track.group keys 1).lanePlaces = (List.range keys.length).map (.lane · 0) :=
    List.flatMap_pure_eq_map ..
  have places : (anyGroup keys).places = (Track.group keys 1).plan.places := by
    change _ = .start :: ((Track.group keys 1).wildPlaces ++ (Track.group keys 1).lanePlaces)
    rw [hw, hl]
    rfl
  have forms {q : Place} (hq : q ∈ (Track.group keys 1).plan.places) :
      q = .start ∨ q = .wilds 0 ∨ ∃ key, q = .lane key 0 := by
    rw [← places] at hq
    simp only [anyGroup, List.cons_append, List.nil_append, List.mem_cons, List.mem_map] at hq
    exact hq.imp_right (Or.imp_right (Exists.imp fun key hr => hr.2.symm))
  apply Plan.states_congr (Track.plan_orderly (Track.group_regular hs hk Nat.zero_lt_one)) places
  · rfl
  · intro q hq
    rcases forms hq with rfl | rfl | ⟨key, rfl⟩
    · rfl
    · rfl
    · change 2 + key = 1 + 1 + key * 1 + 0
      omega
  · intro q hq
    rcases forms hq with rfl | rfl | ⟨key, rfl⟩ <;> rfl

namespace Phase

def groups : Phase → List Plan
  | unsized .set => [(Track.group rankKeys 1).plan]
  | unsized .color => [(Track.group colorKeys 1).plan]
  | unsized .run => [anyRun]
  | sized components => components.map (·.track.plan)

theorem mem_groups {p : Phase} (h : p.Legal) {q : Plan} (hq : q ∈ p.groups) :
    (∃ t : Track, t.Regular ∧ q = t.plan) ∨ q = anyRun := by
  unfold groups at hq
  split at hq
  · exact .inl ⟨_, Track.group_regular rankKeys_sharp (by decide) Nat.zero_lt_one,
      List.mem_singleton.1 hq⟩
  · exact .inl ⟨_, Track.group_regular colorKeys_sharp (by decide) Nat.zero_lt_one,
      List.mem_singleton.1 hq⟩
  · exact .inr (List.mem_singleton.1 hq)
  · obtain ⟨c, hc, rfl⟩ := List.mem_map.1 hq
    exact .inl ⟨c.track, Component.track_regular (h.2 c hc), rfl⟩

theorem groups_orderly {p : Phase} (h : p.Legal) : ∀ q ∈ p.groups, q.Orderly := by
  intro q hq
  rcases mem_groups h hq with ⟨t, ht, rfl⟩ | rfl
  · exact Track.plan_orderly ht
  · exact AnyRun.anyRun_orderly

theorem need_le_size {p : Phase} (h : p.Legal) : ∀ q ∈ p.groups, q.need ≤ q.size := by
  intro q hq
  rcases mem_groups h hq with ⟨t, ht, rfl⟩ | rfl
  · have hl : t.plan.size = 1 + t.size * (t.width + 1) := t.length_places
    rw [Track.need_plan ht, hl, Nat.mul_succ]
    omega
  · decide

/-- What does not tell an unsized set or color group from one of a single card does not tell the
plans of a phase from its groups. -/
theorem plans_congr {β : Type} {f : List Plan → β} {p : Phase} (h : p.Legal)
    (set : f [anyGroup rankKeys] = f [(Track.group rankKeys 1).plan])
    (color : f [anyGroup colorKeys] = f [(Track.group colorKeys 1).plan]) :
    f p.plans = f p.groups := by
  unfold groups
  split
  · exact set
  · exact color
  · rfl
  · next components =>
    cases components with
    | nil => exact absurd rfl h.1
    | cons c cs => rfl

theorem layout_plans {p : Phase} (h : p.Legal) : layout 0 p.plans = layout 0 p.groups :=
  plans_congr h (states_anyGroup rankKeys_sharp (by decide) 0 .finish)
    (states_anyGroup colorKeys_sharp (by decide) 0 .finish)

theorem sum_need_groups {p : Phase} (h : p.Legal) : (p.groups.map Plan.need).sum = p.minCards := by
  unfold groups
  split
  · rfl
  · rfl
  · rfl
  · next components =>
    rw [List.map_map, minCards]
    congr 1
    apply List.map_congr_left
    intro c hc
    exact (Track.need_plan (Component.track_regular (h.2 c hc))).trans c.track_size

theorem exists_groups_eq_cons {p : Phase} (h : p.Legal) : ∃ q qs, p.groups = q :: qs := by
  unfold groups
  split
  · exact ⟨_, _, rfl⟩
  · exact ⟨_, _, rfl⟩
  · exact ⟨_, _, rfl⟩
  · next components =>
    cases components with
    | nil => exact absurd rfl h.1
    | cons c cs => exact ⟨_, _, rfl⟩

end Phase

namespace Automaton

variable {p : Phase}

theorem compile_laid (h : p.Legal) (small : (compile p).size < UInt32.size) :
    (compile p).Laid 0 p.groups :=
  ⟨small, Phase.groups_orderly h, by rw [← Phase.layout_plans h, List.drop_zero]; rfl⟩

theorem compile_awaits (h : p.Legal) (small : (compile p).size < UInt32.size) :
    (compile p).Awaits (compile p).start p.minCards := by
  have laid := compile_laid h small
  have hn := Phase.sum_need_groups h
  obtain ⟨q, qs, hg⟩ := Phase.exists_groups_eq_cons h
  rw [hg] at laid hn
  have hs := laid.awaits_start
  rw [hn, Plan.stateId, laid.head.index_start] at hs
  exact hs

/-- A phase needs no more cards than it has states, so that their number fits a machine word. -/
theorem minCards_lt_of_small (h : p.Legal) (small : (compile p).size < UInt32.size) :
    p.minCards < UInt64.size := by
  have hs : (compile p).size = (layout 0 p.groups).length := by
    rw [← Phase.layout_plans h]
    rfl
  have sum {plans : List Plan} (hn : ∀ q ∈ plans, q.need ≤ q.size) :
      (plans.map Plan.need).sum ≤ plans.foldr (fun q count => q.size + count) 0 := by
    induction plans with
    | nil => exact Nat.le_refl 0
    | cons q qs ih =>
      exact Nat.add_le_add (hn q List.mem_cons_self)
        (ih fun r hr => hn r (List.mem_cons_of_mem q hr))
  have hle := sum (Phase.need_le_size h)
  rw [Phase.sum_need_groups h, ← length_layout 0, ← hs] at hle
  exact Nat.lt_of_le_of_lt hle (Nat.lt_trans small (by decide))

theorem exists_cardsNeeded_of_small (h : p.Legal) (small : (compile p).size < UInt32.size) :
    ∃ n, p.cardsNeeded = .ok n ∧ n.toNat = p.minCards :=
  Phase.exists_cardsNeeded_of_lt (minCards_lt_of_small h small)

end Automaton
end Meld
