import Meld.Proofs.Building

namespace Meld

open Blueprint Arena

namespace Component

variable {c : Component} {base : Nat}

def wires (c : Component) : List Wire :=
  match c.shape with
  | .run => c.track.closedWires
  | _ => c.track.openWires

theorem wires_wired (h : c.InRange) : c.track.plan.Wired c.wires := by
  have regular := track_regular h
  unfold wires
  cases hs : c.shape with
  | set => exact Track.openWires_wired regular (by simp [track, hs, Track.group])
  | color => exact Track.openWires_wired regular (by simp [track, hs, Track.group])
  | run => exact Track.closedWires_wired regular (by simp [track, hs, Track.run])

theorem yields_component (h : c.InRange) (small : base + c.track.plan.size ≤ UInt32.size) :
    Yields (component c) base c.track.plan.size (c.wires.map (c.track.plan.edit base))
      (c.track.plan.fragment base) := by
  unfold component wires
  cases hs : c.shape with
  | set => exact Track.yields_group (by simp [track, hs]) h.1 small
  | color => exact Track.yields_group (by simp [track, hs]) h.1 small
  | run =>
    have most := h.2
    rw [hs] at most
    exact Track.yields_run (by simp [track, hs]) h.1 most small

/-- Whatever the arena holds stays as it is, and the states of the group come behind it. -/
theorem run_component (h : c.InRange) (arena : Arena)
    (small : arena.size + c.track.plan.size ≤ UInt32.size) :
    (component c).run arena = some (c.track.plan.fragment arena.size,
      arena ++ (c.track.plan.places.map (c.track.plan.bare arena.size)).toArray) := by
  rw [(yields_component h small).run_eq arena rfl, (wires_wired h).revise
    (Track.plan_numbered _) (Track.plan_tidy (track_regular h)) rfl]

end Component

namespace Blueprint

variable {base now : Nat} {p : Plan} {plans ps : List Plan} {q : Place} {arena : Arena}

def bares : Nat → List Plan → List State
  | _, [] => []
  | base, p :: ps => p.places.map (p.bare base) ++ bares (base + p.size) ps

def fragments : Nat → List Plan → List Fragment
  | _, [] => []
  | base, p :: ps => p.fragment base :: fragments (base + p.size) ps

def Plan.exits (p : Plan) (base : Nat) (exit : Exit) : List Edit :=
  p.ends.map fun q => ⟨base + p.index q, exit.apply⟩

def exits : Nat → List Plan → List Edit
  | _, [] => []
  | base, p :: ps =>
    p.exits base (exitTo (base + p.size) ps) ++ exits (base + p.size) ps

def joinEdit (join : StateId × StateId) : Edit := ⟨join.1.toNat, (·.insert .epsilon join.2)⟩

def finishEdit (id : StateId) : Edit := ⟨id.toNat, Exit.finish.apply⟩

def total (plans : List Plan) : Nat := (plans.map Plan.size).sum

theorem total_cons (p : Plan) (ps : List Plan) : total (p :: ps) = p.size + total ps := by
  rw [total, List.map_cons, List.sum_cons, total]

theorem length_layout_eq_total (base : Nat) (plans : List Plan) :
    (layout base plans).length = total plans := by
  rw [length_layout]
  induction plans with
  | nil => rfl
  | cons p ps ih => rw [List.foldr_cons, ih, total_cons]

theorem length_bares (base : Nat) (plans : List Plan) :
    (bares base plans).length = total plans := by
  induction plans generalizing base with
  | nil => rfl
  | cons p ps ih => rw [bares, List.length_append, ih, List.length_map, total_cons, Plan.size]

namespace Plan

theorem toNat_stateId (h : p.Numbered) (hq : q ∈ p.places) (small : base + p.size ≤ UInt32.size) :
    (p.stateId base q).toNat = base + p.index q := by
  have hi := index_lt_size h hq
  exact UInt32.toNat_ofNat_of_lt' (by omega)

/-- Each place gets the exit once, and no other place does. -/
theorem reviseAt_map (h : p.Numbered) (hq : q ∈ p.places) (f : State → State) {es : List Place}
    (nodup : es.Nodup) (sub : es ⊆ p.places) (s : State) :
    reviseAt (es.map fun r => ⟨base + p.index r, f⟩) (base + p.index q) s =
      if q ∈ es then f s else s := by
  induction es generalizing s with
  | nil => rfl
  | cons r es ih =>
    rw [List.nodup_cons] at nodup
    rw [List.cons_subset] at sub
    rw [List.map_cons, reviseAt, List.foldl_cons, ← reviseAt, ih nodup.2 sub.2]
    by_cases hr : r = q
    · subst hr
      rw [if_neg nodup.1, if_pos rfl, if_pos List.mem_cons_self]
    · have other : base + p.index r ≠ base + p.index q := fun he =>
        hr (index_inj h sub.1 hq (Nat.add_left_cancel he))
      rw [if_neg other]
      simp only [List.mem_cons, Ne.symm hr, false_or]

theorem revise_exits (h : p.Numbered) (ht : p.Tidy) (arena : Arena) (exit : Exit) :
    revise (p.exits arena.size exit) (arena ++ (p.places.map (p.bare arena.size)).toArray) =
      arena ++ (p.states arena.size exit).toArray := by
  apply Array.ext_getElem?
  intro i
  rw [getElem?_revise, Array.getElem?_append, Array.getElem?_append]
  split
  · next hi =>
    have behind : ∀ e ∈ p.exits arena.size exit, e.index ≠ i := by
      intro e he
      obtain ⟨q, -, rfl⟩ := List.mem_map.1 he
      simp only
      omega
    rw [funext (reviseAt_of_forall_ne behind), Option.map_id']
  · next hi =>
    obtain ⟨j, rfl⟩ := Nat.exists_eq_add_of_le (Nat.le_of_not_lt hi)
    rw [Nat.add_sub_cancel_left, List.getElem?_toArray, List.getElem?_toArray, List.getElem?_map,
      states, List.getElem?_map, Option.map_map]
    cases hj : p.places[j]? with
    | none => rfl
    | some q =>
      have hq := List.mem_of_getElem? hj
      rw [Option.map_some, Option.map_some, Function.comp_apply, ← index_eq h ht hj, exits,
        reviseAt_map h hq _ ht.ends_nodup ht.ends_subset]
      rfl

theorem exits_index_lt (h : p.Numbered) (ht : p.Tidy) {exit : Exit} :
    ∀ e ∈ p.exits base exit, e.index < base + p.size := by
  intro e he
  obtain ⟨q, hq, rfl⟩ := List.mem_map.1 he
  exact Nat.add_lt_add_left (index_lt_size h (ht.ends_subset hq)) base

end Plan

/-- With their exits, the states are those of the layout. -/
theorem revise_exits (h : ∀ p ∈ plans, p.Numbered ∧ p.Tidy) (hs : arena.size = base) :
    revise (exits base plans) (arena ++ (bares base plans).toArray) =
      arena ++ (layout base plans).toArray := by
  induction plans generalizing base arena with
  | nil => rfl
  | cons p ps ih =>
    subst hs
    rw [List.forall_mem_cons] at h
    have bare_size : (arena ++ (p.places.map (p.bare arena.size)).toArray).size =
        arena.size + p.size := by simp [Plan.size]
    have states_size (exit : Exit) : (arena ++ (p.states arena.size exit).toArray).size =
        arena.size + p.size := by simp
    have within (exit : Exit) : ∀ e ∈ p.exits arena.size exit,
        e.index < (arena ++ (p.places.map (p.bare arena.size)).toArray).size := by
      rw [bare_size]
      exact Plan.exits_index_lt h.1.1 h.1.2
    -- the edits of the first plan do not reach the states of the others, which come behind it
    rw [exits, bares, layout_cons, ← List.append_toArray, ← Array.append_assoc, revise_append,
      revise_append_arena (within _),
      Plan.revise_exits h.1.1 h.1.2, ih h.2 (states_size _), ← List.append_toArray,
      Array.append_assoc]

/-- The epsilon transitions and the final states are the exits of all plans. -/
theorem exits_eq (h : ∀ p ∈ plans, p.Numbered ∧ p.Tidy)
    (small : base + total plans ≤ UInt32.size) :
    exits base plans = (joins base plans).map joinEdit ++ (finals base plans).map finishEdit := by
  have handle {p : Plan} (hp : p.Numbered ∧ p.Tidy) {base : Nat}
      (small : base + p.size ≤ UInt32.size) (q : Place) (hq : q ∈ p.ends) :
      base + p.index q = (p.stateId base q).toNat :=
    (Plan.toNat_stateId hp.1 (hp.2.ends_subset hq) small).symm
  fun_induction joins base plans with
  | case1 => rfl
  | case2 base p =>
    rw [total_cons, total, List.map_nil, List.sum_nil] at small
    rw [exits, exits, List.append_nil, finals, List.map_nil, List.nil_append, List.map_map]
    apply List.map_congr_left
    intro q hq
    rw [handle (h p List.mem_cons_self) small q hq]
    rfl
  | case3 base p q ps ih =>
    rw [List.forall_mem_cons] at h
    rw [total_cons, ← Nat.add_assoc] at small
    rw [exits, ih h.2 small, List.map_append, List.map_map, List.append_assoc, finals]
    congr 1
    apply List.map_congr_left
    intro r hr
    rw [handle h.1 (Nat.le_trans (Nat.le_add_right ..) small) r hr]
    rfl

theorem exits_index_lt (h : ∀ p ∈ plans, p.Numbered ∧ p.Tidy) :
    ∀ e ∈ exits base plans, e.index < base + total plans := by
  induction plans generalizing base with
  | nil => nofun
  | cons p ps ih =>
    rw [List.forall_mem_cons] at h
    intro e he
    rw [total_cons]
    rcases List.mem_append.1 he with he | he
    · have := Plan.exits_index_lt h.1.1 h.1.2 e he
      omega
    · have := ih h.2 e he
      omega

/-- A loop of changes to states that are there. -/
theorem yields_forM_change {ids : List StateId} (h : ∀ id ∈ ids, id.toNat < now)
    (f : State → State) :
    Yields (ids.forM fun id => change id f) now 0 (ids.map fun id => ⟨id.toNat, f⟩) () :=
  (yields_forM fun id hid => yields_change (h id hid) f).congr rfl List.map_eq_flatMap.symm rfl

theorem yields_joins (h : ∀ join ∈ joins base plans, join.1.toNat < now) :
    Yields (((fragments base plans).zip (fragments base plans).tail).forM fun (fragment, next) =>
      fragment.finals.forM fun id => put id .epsilon next.start) now 0
      ((joins base plans).map joinEdit) () := by
  fun_induction joins base plans with
  | case1 => exact yields_pure ()
  | case2 => exact yields_pure ()
  | case3 base p q ps ih =>
    rw [List.forall_mem_append] at h
    have sources : ∀ id ∈ p.ends.map (p.stateId base), id.toNat < now := by
      intro id hid
      obtain ⟨r, hr, rfl⟩ := List.mem_map.1 hid
      exact h.1 _ (List.mem_map_of_mem hr)
    have first := yields_forM_change sources (·.insert .epsilon (q.stateId (base + p.size) .start))
    refine (first.seq (ih h.2)).congr rfl ?_ rfl
    rw [List.map_append, List.map_map, List.map_map]
    rfl

theorem getLast?_fragments (p : Plan) (ps : List Plan) (base : Nat) :
    ((fragments base (p :: ps)).getLast?.map (·.finals)) = some (finals base (p :: ps)) := by
  induction ps generalizing p base with
  | nil => rfl
  | cons q ps ih => exact ih q (base + p.size)

theorem run_mapM_component {components : List Component} (h : ∀ c ∈ components, c.InRange)
    (hs : arena.size = base)
    (small : base + total (components.map (·.track.plan)) ≤ UInt32.size) :
    (components.mapM component).run arena =
      some (fragments base (components.map (·.track.plan)),
        arena ++ (bares base (components.map (·.track.plan))).toArray) := by
  induction components generalizing base arena with
  | nil => rfl
  | cons c cs ih =>
    subst hs
    rw [List.forall_mem_cons] at h
    rw [List.map_cons, total_cons] at small
    have size : (arena ++ (c.track.plan.places.map (c.track.plan.bare arena.size)).toArray).size =
        arena.size + c.track.plan.size := by simp [Plan.size]
    have rest := ih h.2 size (by omega)
    rw [List.mapM_cons, StateT.run_bind, Component.run_component h.1 arena (by omega)]
    change StateT.run (cs.mapM component >>= fun rest => pure (_ :: rest)) _ = _
    rw [StateT.run_bind, rest, List.map_cons, bares, ← List.append_toArray, ← Array.append_assoc]
    rfl

/-- What is built starts where the first plan does and is complete with the last one. -/
theorem yields_splice (h : ∀ join ∈ joins base (p :: ps), join.1.toNat < now) :
    Yields (splice (fragments base (p :: ps))) now 0 ((joins base (p :: ps)).map joinEdit)
      ⟨p.stateId base .start, finals base (p :: ps)⟩ := by
  obtain ⟨last, hlast, hfinals⟩ := Option.map_eq_some_iff.1 (getLast?_fragments p ps base)
  unfold splice
  rw [hlast, ← hfinals, ← List.append_nil ((joins base (p :: ps)).map joinEdit)]
  exact (yields_joins h).seq (yields_pure _)

theorem yields_finish {fragment : Fragment} (h : ∀ id ∈ fragment.finals, id.toNat < now) :
    Yields (finish fragment) now 0 (fragment.finals.map finishEdit) fragment := by
  rw [← List.append_nil (fragment.finals.map finishEdit)]
  exact (yields_forM_change h Exit.finish.apply).seq (yields_pure fragment)

theorem joins_index_lt (h : ∀ p ∈ plans, p.Numbered ∧ p.Tidy)
    (small : base + total plans ≤ UInt32.size) :
    ∀ join ∈ joins base plans, join.1.toNat < base + total plans := by
  intro join hj
  apply exits_index_lt h (joinEdit join)
  rw [exits_eq h small]
  exact List.mem_append_left _ (List.mem_map_of_mem hj)

theorem finals_index_lt (h : ∀ p ∈ plans, p.Numbered ∧ p.Tidy)
    (small : base + total plans ≤ UInt32.size) :
    ∀ id ∈ finals base plans, id.toNat < base + total plans := by
  intro id hid
  apply exits_index_lt h (finishEdit id)
  rw [exits_eq h small]
  exact List.mem_append_right _ (List.mem_map_of_mem hid)

/-- Joined and marked, the states of all plans are those of the layout. -/
theorem run_splice_finish (h : ∀ q ∈ p :: ps, q.Numbered ∧ q.Tidy) (arena : Arena)
    (small : arena.size + total (p :: ps) ≤ UInt32.size) :
    (splice (fragments arena.size (p :: ps)) >>= finish).run
        (arena ++ (bares arena.size (p :: ps)).toArray) =
      some (⟨p.stateId arena.size .start, finals arena.size (p :: ps)⟩,
        arena ++ (layout arena.size (p :: ps)).toArray) := by
  have size : (arena ++ (bares arena.size (p :: ps)).toArray).size =
      arena.size + total (p :: ps) := by simp [length_bares]
  have both := (yields_splice (joins_index_lt h small)).bind
    (yields_finish (finals_index_lt h small))
  rw [both.run_eq _ size, ← exits_eq h small, Array.replicate_zero, Array.append_empty,
    revise_exits h rfl]

end Blueprint

theorem Phase.plans_sized {components : List Component} (h : components ≠ []) :
    (Phase.sized components).plans = components.map (·.track.plan) := by
  cases components with
  | nil => exact absurd rfl h
  | cons c cs => rfl

namespace Automaton

variable {components : List Component}

theorem size_compile_sized (h : components ≠ []) :
    (compile (.sized components)).size = total (components.map (·.track.plan)) := by
  rw [Automaton.size, compile, List.size_toArray, length_layout_eq_total, Phase.plans_sized h]

/-- Groups built one after the other, joined and marked are the graph of the phase. -/
theorem run_phase_sized (h : (Phase.sized components).Legal)
    (small : (compile (.sized components)).size ≤ UInt32.size) :
    (Arena.phase (.sized components)).run #[] =
      some (⟨(compile (.sized components)).start, (compile (.sized components)).finals⟩,
        (compile (.sized components)).states) := by
  have plans : ∀ p ∈ components.map (·.track.plan), p.Numbered ∧ p.Tidy := fun p hp =>
    ⟨(Phase.groups_orderly h p hp).numbered, Phase.groups_tidy h p hp⟩
  have room : 0 + total (components.map (·.track.plan)) ≤ UInt32.size := by
    rwa [Nat.zero_add, ← size_compile_sized h.1]
  rw [Arena.phase, unmarked, Arena.sequence, bind_assoc, StateT.run_bind,
    run_mapM_component h.2 (rfl : (#[] : Arena).size = 0) room]
  cases components with
  | nil => exact absurd rfl h.1
  | cons c cs =>
    have joined := run_splice_finish plans #[] room
    rw [Array.empty_append, Array.empty_append] at joined
    rw [Array.empty_append]
    exact joined

/-- Building a phase step by step gives its graph. -/
theorem run_phase {p : Phase} (h : p.Legal) (small : (compile p).size ≤ UInt32.size) :
    (Arena.phase p).run #[] =
      some (⟨(compile p).start, (compile p).finals⟩, (compile p).states) := by
  cases p with
  | unsized shape => cases shape <;> decide +kernel
  | sized components => exact run_phase_sized h small

end Automaton

namespace Blueprint

/-- All groups of a phase, before any of them is joined to the next. -/
def Arena.groups : Phase → Building (List Fragment)
  | .unsized shape => do return [← unmarked (.unsized shape)]
  | .sized components => components.mapM component

/-- The states that complete a group, each with the start of the next one. -/
def joints (fragments : List Fragment) : List (StateId × StateId) :=
  (fragments.zip fragments.tail).flatMap fun (fragment, next) => fragment.finals.map (·, next.start)

theorem phase_eq_groups (p : Phase) :
    Arena.phase p = Arena.groups p >>= fun fragments => splice fragments >>= finish := by
  cases p with
  | unsized shape =>
    rw [Arena.groups, bind_assoc]
    rfl
  | sized components =>
    rw [Arena.phase, unmarked, Arena.sequence, bind_assoc]
    rfl

theorem joints_fragments (base : Nat) (plans : List Plan) :
    joints (fragments base plans) = joins base plans := by
  fun_induction joins base plans with
  | case1 => rfl
  | case2 => rfl
  | case3 base p q ps ih =>
    have first : (p.ends.map (p.stateId base)).map (·, q.stateId (base + p.size) .start) =
        p.ends.map fun r => (p.stateId base r, q.stateId (base + p.size) .start) := List.map_map
    rw [← ih, ← first]
    rfl

end Blueprint

namespace Automaton

variable {p : Phase}

theorem run_groups_joints (h : p.Legal) (small : (compile p).size ≤ UInt32.size) :
    ((Arena.groups p).run #[]).map (fun built => joints built.1) = some (joins 0 p.plans) := by
  cases p with
  | unsized shape => cases shape <;> decide +kernel
  | sized components =>
    have room : 0 + total (components.map (·.track.plan)) ≤ UInt32.size := by
      rwa [Nat.zero_add, ← size_compile_sized h.1]
    rw [Arena.groups, run_mapM_component h.2 (rfl : (#[] : Arena).size = 0) room, Phase.plans_sized h.1, ← joints_fragments]
    rfl

/-- Compiled graphs are well formed: whatever completes a group when it is built is joined to the
start of the next one, and nothing else is, and the check that snapshots are put to has nothing to
object to. -/
theorem compile_wellFormed {text : String} (parsed : Phase.parse text = .ok p)
    (small : (compile p).size < UInt32.size) :
    ∃ fragments arena, (Arena.groups p).run #[] = some (fragments, arena) ∧
      (splice fragments >>= finish).run arena =
        some (⟨(compile p).start, (compile p).finals⟩, (compile p).states) ∧
      (compile p).WellFormed (joints fragments) ∧ (compile p).checkSound = .ok () := by
  have h := Phase.legal_of_parse parsed
  have built := run_phase h small.le
  rw [phase_eq_groups, StateT.run_bind] at built
  obtain ⟨⟨fragments, arena⟩, made, spliced⟩ := Option.bind_eq_some_iff.1 built
  have joined := run_groups_joints h small.le
  rw [made, Option.map_some, Option.some.injEq] at joined
  have formed := wellFormed_compile h small
  rw [← joined] at formed
  exact ⟨fragments, arena, made, spliced, formed, checkSound_eq_ok_iff.2 formed.sound⟩

/-- A single wild card completes the set, and the run starts behind its 14 states. -/
theorem compile_wellFormed_set_run :
    Phase.parse "S1+R2" = .ok (.sized [⟨.set, 1⟩, ⟨.run, 2⟩]) ∧
    (compile (.sized [⟨.set, 1⟩, ⟨.run, 2⟩])).size < UInt32.size ∧
    (∃ s, (compile (.sized [⟨.set, 1⟩, ⟨.run, 2⟩])).state? 1 = some s ∧
      ⟨.epsilon, 14⟩ ∈ s.transitions) ∧
    (compile (.sized [⟨.set, 1⟩, ⟨.run, 2⟩])).Reachable 36 ∧
    (compile (.sized [⟨.set, 1⟩, ⟨.run, 2⟩])).checkSound = .ok () := by
  have parsed : Phase.parse "S1+R2" = .ok (.sized [⟨.set, 1⟩, ⟨.run, 2⟩]) := by decide
  have small : (compile (.sized [⟨.set, 1⟩, ⟨.run, 2⟩])).size < UInt32.size := by decide
  obtain ⟨fragments, arena, made, -, formed, sound⟩ := compile_wellFormed parsed small
  have joined : ((Arena.groups (.sized [⟨.set, 1⟩, ⟨.run, 2⟩])).run #[]).any
      (fun built => (1, 14) ∈ joints built.1) = true := by decide +kernel
  rw [made] at joined
  exact ⟨parsed, small, (formed.epsilon_iff 1 14).2 (of_decide_eq_true joined),
    formed.reachable 36 (by decide), sound⟩

end Automaton
end Meld
