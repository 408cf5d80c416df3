import Meld.Blueprint.Compile
import Meld.Proofs.AnyRun
import Meld.Proofs.Laid
import Meld.Proofs.Precedence

namespace Meld

namespace Blueprint

def vocabulary : List Guard := wild :: (rankKeys ++ colorKeys)

variable {e : Guard × Place} {q : Place} {g : Guard} {keys : List Guard} {base : Nat} {exit : Exit}

theorem rankKeys_subset : rankKeys ⊆ vocabulary := by decide

theorem colorKeys_subset : colorKeys ⊆ vocabulary := by decide

def Plan.Fluent (p : Plan) : Prop := ∀ q, ∀ e ∈ p.edges q, e.1 ∈ vocabulary

theorem Track.fluent {t : Track} (h : ∀ pos, t.wants pos ⊆ vocabulary) : t.plan.Fluent := by
  intro q e he
  have known {pos key : Nat} (hk : (t.wants pos)[key]? = some e.1) : e.1 ∈ vocabulary :=
    h pos (List.mem_of_getElem? hk)
  by_cases hu : q.Undecided
  · obtain ⟨next, -, rfl | hc⟩ := (mem_edges_of_undecided hu).1 he
    · exact List.mem_cons_self
    · obtain ⟨key, hk, -⟩ := mem_commit.1 hc
      exact known hk
  · obtain ⟨key, pos, rfl⟩ := Place.exists_lane_of_not_undecided hu
    obtain ⟨next, guard, -, hk, rfl | rfl⟩ := mem_edges_lane.1 he
    · exact known hk
    · exact List.mem_cons_self

theorem anyGroup_fluent (h : keys ⊆ vocabulary) : (anyGroup keys).Fluent := by
  intro q e he
  have first : e ∈ (wild, Place.wilds 0) :: (keys.mapIdx fun key guard => (guard, .lane key 0)) →
      e.1 ∈ vocabulary := by
    intro he
    rcases List.mem_cons.1 he with rfl | he
    · exact List.mem_cons_self
    · obtain ⟨key, hk, rfl⟩ := List.mem_mapIdx.1 he
      exact h (List.getElem_mem hk)
  cases q with
  | start => exact first he
  | wilds pos => exact first he
  | lane key pos =>
    simp only [anyGroup] at he
    split at he
    · contradiction
    · next guard hk =>
      rcases List.mem_pair.1 he with rfl | rfl
      · exact h (List.mem_of_getElem? hk)
      · exact List.mem_cons_self

theorem anyRun_fluent : anyRun.Fluent := by
  intro q e he
  have known {pos : Nat} (hk : rankKeys[pos]? = some e.1) : e.1 ∈ vocabulary :=
    rankKeys_subset (List.mem_of_getElem? hk)
  by_cases hu : q.Undecided
  · rcases (AnyRun.mem_edges_of_undecided hu).1 he with ⟨-, rfl⟩ | hr
    · exact List.mem_cons_self
    · obtain ⟨pos, -, hk, -⟩ := AnyRun.mem_rankEdges.1 hr
      exact known hk
  · obtain ⟨key, pos, rfl⟩ := Place.exists_lane_of_not_undecided hu
    obtain ⟨guard, hk, rfl | rfl⟩ := AnyRun.mem_edges_lane.1 he
    · exact known hk
    · exact List.mem_cons_self

/-- The only transition that an exit adds is one that takes no card. -/
theorem Plan.Fluent.mem_state {p : Plan} (h : p.Fluent) {t : Transition}
    (ht : t ∈ (p.state base exit q).transitions) : t.guard ∈ Guard.epsilon :: vocabulary := by
  have edge {u : Transition}
      (hu : u ∈ (p.edges q).map fun e => ⟨e.1, p.stateId base e.2⟩) :
      u.guard ∈ vocabulary := by
    obtain ⟨e, he, rfl⟩ := List.mem_map.1 hu
    exact h q e he
  unfold state at ht
  split at ht
  · cases exit with
    | finish => exact List.mem_cons_of_mem _ (edge ht)
    | join next =>
      have hg := List.mem_map_of_mem (f := (·.guard)) ht
      rw [Exit.apply, State.guards_insert] at hg
      split at hg
      · obtain ⟨u, hu, he⟩ := List.mem_map.1 hg
        exact he ▸ List.mem_cons_of_mem _ (edge hu)
      · rcases List.mem_append.1 hg with hg | hg
        · obtain ⟨u, hu, he⟩ := List.mem_map.1 hg
          exact he ▸ List.mem_cons_of_mem _ (edge hu)
        · exact List.mem_singleton.1 hg ▸ List.mem_cons_self
  · exact List.mem_cons_of_mem _ (edge ht)

theorem guard_mem_of_mem_layout {plans : List Plan} (h : ∀ p ∈ plans, p.Fluent) {s : State}
    (hs : s ∈ layout base plans) {t : Transition} (ht : t ∈ s.transitions) :
    t.guard ∈ Guard.epsilon :: vocabulary := by
  induction plans generalizing base with
  | nil => contradiction
  | cons p ps ih =>
    rw [layout_cons] at hs
    rcases List.mem_append.1 hs with hs | hs
    · obtain ⟨q, -, rfl⟩ := List.mem_map.1 hs
      exact (h p List.mem_cons_self).mem_state ht
    · exact ih (fun p' hp => h p' (List.mem_cons_of_mem p hp)) hs

end Blueprint

open Blueprint

theorem Component.fluent (c : Component) : c.track.plan.Fluent := by
  apply Track.fluent
  intro pos
  unfold track
  split
  · exact rankKeys_subset
  · exact colorKeys_subset
  · exact fun g hg => rankKeys_subset (List.mem_of_mem_drop (List.mem_of_mem_take hg))

theorem Phase.fluent (p : Phase) : ∀ q ∈ p.plans, q.Fluent := by
  unfold plans
  split
  · exact List.forall_mem_singleton.2 (anyGroup_fluent rankKeys_subset)
  · exact List.forall_mem_singleton.2 (anyGroup_fluent colorKeys_subset)
  · exact List.forall_mem_singleton.2 anyRun_fluent
  · exact List.forall_mem_singleton.2 fun _ _ => nofun
  · next components _ =>
    intro q hq
    obtain ⟨c, -, rfl⟩ := List.mem_map.1 hq
    exact c.fluent

/-- A compiled graph asks for nothing but wild cards, numbered ranks and real colors. -/
theorem Automaton.guard_mem_compile (p : Phase) {s : State} (hs : s ∈ (compile p).states)
    {t : Transition} (ht : t ∈ s.transitions) : t.guard ∈ Guard.epsilon :: vocabulary := by
  rw [compile, List.mem_toArray] at hs
  exact guard_mem_of_mem_layout p.fluent hs ht

end Meld
