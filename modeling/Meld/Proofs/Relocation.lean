import Meld.Proofs.Assembly
import Meld.Proofs.Counting

namespace Meld

open Blueprint Arena

def shiftId (base : Nat) (id : StateId) : StateId := UInt32.ofNat (base + id.toNat)

def State.shift (base : Nat) (s : State) : State :=
  { s with transitions := s.transitions.map fun t => ⟨t.guard, shiftId base t.target⟩ }

namespace Blueprint

variable {p : Plan} {base next : Nat} {q : Place}

def Fragment.shift (base : Nat) (f : Fragment) : Fragment :=
  ⟨shiftId base f.start, f.finals.map (shiftId base)⟩

/-- A group as it is built where no other states are. -/
structure Part where
  fragment : Fragment
  states : Arena

def Part.handles (part : Part) : List StateId :=
  part.fragment.start :: part.fragment.finals ++
    part.states.toList.flatMap fun s => s.transitions.map (·.target)

def Exit.extend (s : State) : Exit → State
  | .finish => { s with isFinal := true }
  | .join next => { s with transitions := s.transitions ++ [⟨.epsilon, next⟩] }

/-- A part that has been shifted, with an exit for the states that complete it. -/
def Part.land (part : Part) (base : Nat) (exit : Exit) : Arena :=
  part.states.mapIdx fun i s =>
    if UInt32.ofNat i ∈ part.fragment.finals then exit.extend (s.shift base) else s.shift base

/-- Parts one after the other. What completes one of them leads on to the next or is final. -/
def assemble : Nat → List Part → Arena
  | _, [] => #[]
  | base, [part] => part.land base .finish
  | base, part :: next :: parts =>
    part.land base (.join (shiftId (base + part.states.size) next.fragment.start)) ++
      assemble (base + part.states.size) (next :: parts)

namespace Plan

def part (p : Plan) : Part := ⟨p.fragment 0, (p.places.map (p.bare 0)).toArray⟩

theorem size_part (p : Plan) : p.part.states.size = p.size := by
  rw [part, List.size_toArray, List.length_map, size]

theorem shiftId_stateId (p : Plan) (base : Nat) (q : Place) :
    shiftId base (p.stateId 0 q) = p.stateId base q := by
  apply UInt32.toNat_inj.1
  rw [shiftId, stateId, stateId, UInt32.toNat_ofNat', UInt32.toNat_ofNat', UInt32.toNat_ofNat',
    Nat.zero_add, Nat.add_mod_mod]

theorem shiftId_start_part (p : Plan) (base : Nat) :
    shiftId base p.part.fragment.start = p.stateId base .start := p.shiftId_stateId base .start

theorem bare_shift (p : Plan) (base : Nat) (q : Place) :
    (p.bare 0 q).shift base = p.bare base q := by
  simp only [bare, State.shift, List.map_map, Function.comp_def, shiftId_stateId]

theorem fragment_shift (p : Plan) (base : Nat) :
    p.part.fragment.shift base = p.fragment base := by
  simp only [part, fragment, Fragment.shift, List.map_map, Function.comp_def, shiftId_stateId]

theorem states_shift (p : Plan) (base : Nat) :
    p.part.states.map (·.shift base) = (p.places.map (p.bare base)).toArray := by
  simp only [part, List.map_toArray, List.map_map, Function.comp_def, bare_shift]

/-- Of a state without an epsilon transition, nothing is replaced. -/
theorem extend_bare (h : p.Orderly) (hq : q ∈ p.places) (base : Nat) (exit : Exit) :
    exit.extend (p.bare base q) = exit.apply (p.bare base q) := by
  cases exit with
  | finish => rfl
  | join next =>
    have guards : ∀ t ∈ (p.bare base q).transitions, t.guard ≠ .epsilon := by
      intro t ht
      obtain ⟨e, he, rfl⟩ := List.mem_map.1 ht
      exact h.guard_ne q hq e he
    rw [Exit.extend, Exit.apply, State.insert, State.place_eq_append guards]

theorem stateId_mem_iff (h : p.Numbered) (ht : p.Tidy) (small : p.size ≤ UInt32.size)
    (hq : q ∈ p.places) : p.stateId 0 q ∈ p.part.fragment.finals ↔ q ∈ p.ends := by
  rw [← Nat.zero_add p.size] at small
  refine ⟨fun hm => ?_, List.mem_map_of_mem⟩
  obtain ⟨r, hr, he⟩ := List.mem_map.1 hm
  have hi := congrArg UInt32.toNat he
  rw [toNat_stateId h (ht.ends_subset hr) small, toNat_stateId h hq small] at hi
  exact index_inj h (ht.ends_subset hr) hq (Nat.add_left_cancel hi) ▸ hr

theorem land_part (h : p.Orderly) (ht : p.Tidy) (small : p.size ≤ UInt32.size) (base : Nat)
    (exit : Exit) : p.part.land base exit = (p.states base exit).toArray := by
  apply Array.ext_getElem?
  intro i
  have state : p.part.states[i]? = p.places[i]?.map (p.bare 0) := by
    rw [part, List.getElem?_toArray, List.getElem?_map]
  rw [Part.land, Array.getElem?_mapIdx, state, List.getElem?_toArray, states, List.getElem?_map,
    Option.map_map]
  cases hi : p.places[i]? with
  | none => rfl
  | some q =>
    have hq := List.mem_of_getElem? hi
    have id : UInt32.ofNat i = p.stateId 0 q := by
      rw [stateId, index_eq h.numbered ht hi, Nat.zero_add]
    -- nothing but the exit depends on whether the place completes the plan
    simp only [Option.map_some, Function.comp_apply, id, bare_shift, extend_bare h hq,
      stateId_mem_iff h.numbered ht small hq]
    rfl

theorem exists_of_mem_handles (h : p.Orderly) (ht : p.Tidy) {id : StateId}
    (hid : id ∈ p.part.handles) : ∃ q ∈ p.places, p.stateId 0 q = id := by
  rw [Part.handles, List.mem_append, List.mem_cons] at hid
  rcases hid with (rfl | hid) | hid
  · exact ⟨_, h.start_mem, rfl⟩
  · obtain ⟨q, hq, rfl⟩ := List.mem_map.1 hid
    exact ⟨q, ht.ends_subset hq, rfl⟩
  · obtain ⟨s, hs, hid⟩ := List.mem_flatMap.1 hid
    obtain ⟨q, hq, rfl⟩ := List.mem_map.1 hs
    obtain ⟨t, hm, rfl⟩ := List.mem_map.1 hid
    obtain ⟨e, he, rfl⟩ := List.mem_map.1 hm
    exact ⟨e.2, h.target_mem q hq e he, rfl⟩

end Plan

variable {plans : List Plan}

theorem assemble_parts (h : ∀ p ∈ plans, p.Orderly ∧ p.Tidy ∧ p.size ≤ UInt32.size) :
    assemble base (plans.map Plan.part) = (layout base plans).toArray := by
  fun_induction layout base plans with
  | case1 => rfl
  | case2 base p =>
    obtain ⟨orderly, tidy, small⟩ := h p List.mem_cons_self
    exact Plan.land_part orderly tidy small base .finish
  | case3 base p q ps ih =>
    obtain ⟨⟨orderly, tidy, small⟩, rest⟩ := List.forall_mem_cons.1 h
    rw [List.map_cons] at ih
    rw [List.map_cons, List.map_cons, assemble, Plan.size_part, Plan.shiftId_start_part, ih rest,
      Plan.land_part orderly tidy small, List.append_toArray]

end Blueprint

namespace Component

variable {c : Component}

def stateCount (c : Component) : Nat :=
  match c.shape with
  | .set => 1 + 13 * c.size.toNat
  | .color => 1 + 5 * c.size.toNat
  | .run => 1 + c.size.toNat * (14 - c.size.toNat)

theorem size_plan (h : c.InRange) : c.track.plan.size = c.stateCount := by
  have size : c.track.plan.size = 1 + c.track.size * (c.track.width + 1) := c.track.length_places
  have most := h.2
  rw [size, track_size, stateCount, track]
  cases hs : c.shape with
  | set => exact congrArg (1 + ·) (Nat.mul_comm ..)
  | color => exact congrArg (1 + ·) (Nat.mul_comm ..)
  | run =>
    rw [hs] at most
    have width : 13 - c.size.toNat + 1 = 14 - c.size.toNat := by
      change c.size.toNat ≤ 12 at most
      omega
    exact congrArg (1 + c.size.toNat * ·) width

/-- A group is the same wherever it is built, but for the handles, which are moved along. -/
theorem run_component_part (h : c.InRange) (arena : Arena)
    (small : arena.size + c.stateCount ≤ UInt32.size) :
    (component c).run arena = some (c.track.plan.part.fragment.shift arena.size,
      arena ++ c.track.plan.part.states.map (·.shift arena.size)) := by
  rw [run_component h arena (size_plan h ▸ small), Plan.fragment_shift, Plan.states_shift]

theorem run_component_empty (h : c.InRange) :
    (component c).run #[] =
      some (c.track.plan.part.fragment, c.track.plan.part.states) := by
  have room : (#[] : Arena).size + c.track.plan.size ≤ UInt32.size := by
    rw [Array.size_empty, Nat.zero_add]
    exact Nat.le_of_lt (size_plan_lt h)
  rw [run_component h #[] room, Array.empty_append]
  rfl

theorem not_isFinal_part (c : Component) :
    ∀ s ∈ c.track.plan.part.states, s.isFinal = false := by
  intro s hs
  obtain ⟨q, -, rfl⟩ := List.mem_map.1 (Array.mem_toList_iff.2 hs)
  rfl

theorem toNat_shiftId_handles (h : c.InRange) {base : Nat}
    (small : base + c.stateCount ≤ UInt32.size) : ∀ id ∈ c.track.plan.part.handles,
      id.toNat < c.stateCount ∧ (shiftId base id).toNat = base + id.toNat := by
  have regular := track_regular h
  have numbered := c.track.plan_numbered
  rw [← size_plan h] at small ⊢
  intro id hid
  obtain ⟨q, hq, rfl⟩ :=
    Plan.exists_of_mem_handles (Track.plan_orderly regular) (Track.plan_tidy regular) hid
  have home : (c.track.plan.stateId 0 q).toNat = c.track.plan.index q :=
    (Plan.toNat_stateId numbered hq (by omega)).trans (Nat.zero_add _)
  rw [Plan.shiftId_stateId, Plan.toNat_stateId numbered hq small, home]
  exact ⟨Plan.index_lt_size numbered hq, rfl⟩

theorem total_plans {components : List Component} (h : ∀ c ∈ components, c.InRange) :
    total (components.map (·.track.plan)) = (components.map stateCount).sum := by
  rw [total, List.map_map]
  congr 1
  exact List.map_congr_left fun c hc => size_plan (h c hc)

end Component

namespace Automaton

/-- The graph of a phase is put together from its groups, each built where no other states are. -/
theorem compile_eq_assemble {components : List Component} (h : (Phase.sized components).Legal) :
    (compile (.sized components)).states =
      assemble 0 (components.map (·.track.plan.part)) := by
  have parts : components.map (·.track.plan.part) =
      (components.map (·.track.plan)).map Plan.part := by rw [List.map_map, Function.comp_def]
  rw [parts, assemble_parts, compile, Phase.plans_sized h.1]
  intro p hp
  refine ⟨Phase.groups_orderly h p hp, Phase.groups_tidy h p hp, ?_⟩
  obtain ⟨c, hc, rfl⟩ := List.mem_map.1 hp
  exact Nat.le_of_lt (Component.size_plan_lt (h.2 c hc))

/-- A group is built the same way behind any states: they stay as they are, it adds as many states
as its kind and size say, none of them final, and its handles are moved along and never wrap
around. So the states of a phase are those of its groups, moved to where they land, together with
the epsilon transitions from one group to the next and the marks of what completes the last one. -/
theorem component_relocates :
    (∀ shape size c, Component.make shape size = .ok c →
      ∀ arena : Arena, arena.size + c.stateCount < UInt32.size →
        ∃ part : Part,
          (component c).run #[] = some (part.fragment, part.states) ∧
          (component c).run arena = some (part.fragment.shift arena.size,
            arena ++ part.states.map (·.shift arena.size)) ∧
          part.states.size = c.stateCount ∧
          (∀ s ∈ part.states, s.isFinal = false) ∧
          ∀ id ∈ part.handles, id.toNat < part.states.size ∧
            (shiftId arena.size id).toNat = arena.size + id.toNat) ∧
    (∀ components : List Component, components ≠ [] →
      (∀ c ∈ components, ∃ shape size, Component.make shape size = .ok c) →
      (components.map Component.stateCount).sum < UInt32.size →
        ∃ parts : List Part,
          components.Forall₂ (fun c part =>
            (component c).run #[] = some (part.fragment, part.states)) parts ∧
          (Arena.phase (.sized components)).run #[] =
            some (⟨(compile (.sized components)).start, (compile (.sized components)).finals⟩,
              (compile (.sized components)).states) ∧
          (compile (.sized components)).states = assemble 0 parts) := by
  constructor
  · intro shape size c made arena small
    obtain ⟨-, range⟩ := Component.make_eq_ok_iff.1 made
    have room := Nat.le_of_lt small
    refine ⟨c.track.plan.part, Component.run_component_empty range,
      Component.run_component_part range arena room,
      (Plan.size_part _).trans (Component.size_plan range), c.not_isFinal_part, ?_⟩
    rw [Plan.size_part, Component.size_plan range]
    exact Component.toNat_shiftId_handles range room
  · intro components some_group made small
    have range : ∀ c ∈ components, c.InRange := by
      intro c hc
      obtain ⟨shape, size, hm⟩ := made c hc
      exact (Component.make_eq_ok_iff.1 hm).2
    have legal : (Phase.sized components).Legal := ⟨some_group, range⟩
    refine ⟨components.map (·.track.plan.part), ?_, run_phase legal ?_,
      compile_eq_assemble legal⟩
    · rw [List.forall₂_map_right_iff, List.forall₂_same]
      exact fun c hc => Component.run_component_empty (range c hc)
    · rw [size_compile_sized some_group, Component.total_plans range]
      exact Nat.le_of_lt small

/-- A run of two behind two states, and behind a set of one in a phase. -/
theorem component_relocates_run :
    Component.make .run 2 = .ok ⟨.run, 2⟩ ∧ Component.make .set 1 = .ok ⟨.set, 1⟩ ∧
    (∃ part : Part,
      (component ⟨.run, 2⟩).run #[] = some (part.fragment, part.states) ∧
      (component ⟨.run, 2⟩).run #[.plain, ⟨true, [⟨wild, 0⟩]⟩] = some (part.fragment.shift 2,
        #[.plain, ⟨true, [⟨wild, 0⟩]⟩] ++ part.states.map (·.shift 2)) ∧
      part.states.size = 25 ∧
      (∀ s ∈ part.states, s.isFinal = false) ∧
      ∀ id ∈ part.handles, id.toNat < part.states.size ∧ (shiftId 2 id).toNat = 2 + id.toNat) ∧
    ∃ parts : List Part,
      [⟨.set, 1⟩, ⟨.run, 2⟩].Forall₂ (fun c part =>
        (component c).run #[] = some (part.fragment, part.states)) parts ∧
      (Arena.phase (.sized [⟨.set, 1⟩, ⟨.run, 2⟩])).run #[] =
        some (⟨(compile (.sized [⟨.set, 1⟩, ⟨.run, 2⟩])).start,
          (compile (.sized [⟨.set, 1⟩, ⟨.run, 2⟩])).finals⟩,
          (compile (.sized [⟨.set, 1⟩, ⟨.run, 2⟩])).states) ∧
      (compile (.sized [⟨.set, 1⟩, ⟨.run, 2⟩])).states = assemble 0 parts := by
  have run : Component.make .run 2 = .ok ⟨.run, 2⟩ := rfl
  have set : Component.make .set 1 = .ok ⟨.set, 1⟩ := rfl
  have both : ∀ c ∈ [⟨.set, 1⟩, ⟨.run, 2⟩], ∃ shape size, Component.make shape size = .ok c := by
    intro c hc
    rcases List.mem_pair.1 hc with rfl | rfl
    · exact ⟨_, _, set⟩
    · exact ⟨_, _, run⟩
  exact ⟨run, set, component_relocates.1 _ _ _ run #[.plain, ⟨true, [⟨wild, 0⟩]⟩] (by decide),
    component_relocates.2 _ (List.cons_ne_nil _ _) both (by decide)⟩

end Automaton
end Meld
