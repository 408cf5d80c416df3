import Mathlib.Data.Fintype.Pigeonhole
import Mathlib.Logic.Relation
import Mathlib.Order.Monotone.Basic
import Meld.Proofs.Sound

namespace Meld

theorem State.exists_mem_of_epsilon?_eq_some {s : State} {next : StateId}
    (h : s.epsilon? = some next) : ∃ t ∈ s.transitions, t.target = next := by
  obtain ⟨t, ht, rfl⟩ := Option.map_eq_some_iff.1 h
  exact ⟨t, List.mem_of_find?_eq_some ht, rfl⟩

namespace Automaton

def Passes (a : Automaton) (s t : State) : Prop :=
  ∃ next, s.epsilon? = some next ∧ a.state? next = some t

def Endless (a : Automaton) (s : State) : Prop :=
  ∃ path : Nat → State, path 0 = s ∧ ∀ n, a.Passes (path n) (path (n + 1))

/-- A reason to refuse a graph applies to it, whether or not another one does as well. -/
def Fails (a : Automaton) : Unsound → Prop
  | .start => a.size ≤ a.start.toNat
  | .final => ∃ id ∈ a.finals, a.size ≤ id.toNat
  | .target => ∃ s ∈ a.states, ∃ t ∈ s.transitions, a.size ≤ t.target.toNat
  | .epsilonCycle => ∃ s ∈ a.states, a.Endless s

variable {a : Automaton} {id here : StateId} {count : Nat} {s t : State}

theorem Passes.mem_states (h : a.Passes s t) : t ∈ a.states := by
  obtain ⟨next, -, ht⟩ := h
  exact mem_states_of_state? ht

namespace Endless

/-- States from which one only ever comes to others of their kind are without end. -/
theorem of_closed {S : State → Prop} (next : ∀ s, S s → ∃ t, a.Passes s t ∧ S t) (hs : S s) :
    a.Endless s := by
  choose f passes stays using next
  let path : Nat → {s // S s} := fun n => Nat.rec ⟨s, hs⟩ (fun _ p => ⟨f p p.2, stays p p.2⟩) n
  exact ⟨fun n => (path n).1, rfl, fun n => passes (path n).1 (path n).2⟩

theorem tail (h : a.Endless s) : ∃ t, a.Passes s t ∧ a.Endless t := by
  obtain ⟨path, rfl, hp⟩ := h
  exact ⟨path 1, hp 0, fun n => path (n + 1), rfl, fun n => hp (n + 1)⟩

/-- There are finitely many states, so that one of them must come again. -/
theorem exists_cycle (h : a.Endless s) :
    ∃ t, Relation.ReflTransGen a.Passes s t ∧ Relation.TransGen a.Passes t t := by
  obtain ⟨path, rfl, hp⟩ := h
  have later {i j : Nat} (hij : i < j) : Relation.TransGen a.Passes (path i) (path j) :=
    Nat.rel_of_forall_rel_succ_of_lt _ (fun n => .single (hp n)) hij
  have numbers (n : Nat) : ∃ i : Fin a.size, a.states[i] = path (n + 1) := by
    obtain ⟨i, hi, he⟩ := Array.mem_iff_getElem.1 (hp n).mem_states
    exact ⟨⟨i, hi⟩, he⟩
  choose visit hv using numbers
  have back {i j : Nat} (hij : i < j) (he : visit i = visit j) :
      ∃ t, Relation.ReflTransGen a.Passes (path 0) t ∧ Relation.TransGen a.Passes t t := by
    have same : path (j + 1) = path (i + 1) := by rw [← hv i, ← hv j, he]
    have cycle := later (Nat.succ_lt_succ hij)
    rw [same] at cycle
    exact ⟨path (i + 1), (later (Nat.succ_pos i)).to_reflTransGen, cycle⟩
  obtain ⟨i, j, hne, he⟩ := Finite.exists_ne_map_eq_of_infinite visit
  rcases Nat.lt_or_gt_of_ne hne with hij | hij
  · exact back hij he
  · exact back hij he.symm

theorem of_cycle (reached : Relation.ReflTransGen a.Passes s t)
    (cycle : Relation.TransGen a.Passes t t) : a.Endless s := by
  apply of_closed (S := fun s => Relation.ReflTransGen a.Passes s t) _ reached
  intro s hs
  rcases hs.cases_head with rfl | hs
  · exact Relation.TransGen.head'_iff.1 cycle
  · exact hs

end Endless

theorem Hops.not_endless (h : a.Hops count id here) (hs : a.state? id = some s) :
    ¬a.Endless s := by
  induction h generalizing s with
  | rest hs' he =>
    intro endless
    obtain rfl := Option.some.inj (hs.symm.trans hs')
    obtain ⟨t, ⟨next, hn, -⟩, -⟩ := endless.tail
    rw [he] at hn
    contradiction
  | hop hs' he _ ih =>
    intro endless
    obtain rfl := Option.some.inj (hs.symm.trans hs')
    obtain ⟨t, ⟨next, hn, ht⟩, endless⟩ := endless.tail
    obtain rfl := Option.some.inj (he.symm.trans hn)
    exact ih ht endless

theorem closure?_eq_none_iff : a.closure? id = none ↔ ∀ count here, ¬a.Hops count id here := by
  rw [Option.eq_none_iff_forall_ne_some]
  simp only [ne_eq, closure?_eq_some_iff, not_exists]
  exact forall_comm

theorem closure?_eq_none_of_endless (hs : a.state? id = some s) (endless : a.Endless s) :
    a.closure? id = none :=
  closure?_eq_none_iff.2 fun _ _ hh => hh.not_endless hs endless

/-- Where all targets are there, epsilon transitions that do not end go on for ever. -/
theorem endless_of_closure?_eq_none (targets : a.hasTargets = true) (hs : a.state? id = some s)
    (h : a.closure? id = none) : a.Endless s := by
  apply Endless.of_closed (S := fun s => ∃ id, a.state? id = some s ∧ a.closure? id = none) _
    ⟨id, hs, h⟩
  rintro s ⟨id, hs, h⟩
  rw [closure?_eq_none_iff] at h
  cases he : s.epsilon? with
  | none => exact absurd (Hops.rest hs he) (h 0 id)
  | some next =>
    obtain ⟨t, ht, rfl⟩ := State.exists_mem_of_epsilon?_eq_some he
    have there := hasTargets_iff.1 targets s (mem_states_of_state? hs) t ht
    obtain ⟨u, hu⟩ := has_iff.1 there
    refine ⟨u, ⟨t.target, he, hu⟩, t.target, hu, ?_⟩
    rw [closure?_eq_none_iff]
    exact fun count here hh => h (count + 1) here (.hop hs he hh)

theorem settles_iff_not_fails (targets : a.hasTargets = true) :
    a.settles = true ↔ ¬a.Fails .epsilonCycle := by
  simp only [settles_iff, Fails, not_exists, not_and]
  constructor
  · intro h s _ endless
    -- a state may be beyond the reach of handles, but the one after it is not
    obtain ⟨t, ⟨next, -, ht⟩, endless⟩ := endless.tail
    obtain ⟨here, hc⟩ := h next (has_of_state? ht)
    rw [closure?_eq_none_of_endless ht endless] at hc
    contradiction
  · intro h id hid
    obtain ⟨s, hs⟩ := has_iff.1 hid
    apply Option.ne_none_iff_exists'.1
    intro hc
    exact h s (mem_states_of_state? hs) (endless_of_closure?_eq_none targets hs hc)

theorem has_start_iff_not_fails : a.has a.start = true ↔ ¬a.Fails .start := by
  simp only [has, decide_eq_true_eq, Fails, Nat.not_le]

theorem has_finals_iff_not_fails : a.finals.all a.has = true ↔ ¬a.Fails .final := by
  simp only [List.all_eq_true, has, decide_eq_true_eq, Fails, not_exists, not_and, Nat.not_le]

theorem hasTargets_iff_not_fails : a.hasTargets = true ↔ ¬a.Fails .target := by
  simp only [hasTargets_iff, has, decide_eq_true_eq, Fails, not_exists, not_and, Nat.not_le]

/-- The first reason that applies is the one that is given. -/
theorem checkSound_cases (a : Automaton) :
    (a.Fails .start ∧ a.checkSound = .error .start) ∨
    (¬a.Fails .start ∧ a.Fails .final ∧ a.checkSound = .error .final) ∨
    (¬a.Fails .start ∧ ¬a.Fails .final ∧ a.Fails .target ∧ a.checkSound = .error .target) ∨
    (¬a.Fails .start ∧ ¬a.Fails .final ∧ ¬a.Fails .target ∧ a.Fails .epsilonCycle ∧
      a.checkSound = .error .epsilonCycle) ∨
    (¬a.Fails .start ∧ ¬a.Fails .final ∧ ¬a.Fails .target ∧ ¬a.Fails .epsilonCycle ∧
      a.checkSound = .ok ()) := by
  by_cases start : a.Fails .start
  · have hs : a.has a.start = false :=
      Bool.eq_false_iff.2 fun h => has_start_iff_not_fails.1 h start
    exact .inl ⟨start, by rw [checkSound, hs]; rfl⟩
  have hs := has_start_iff_not_fails.2 start
  by_cases final : a.Fails .final
  · have hf : a.finals.all a.has = false :=
      Bool.eq_false_iff.2 fun h => has_finals_iff_not_fails.1 h final
    exact .inr (.inl ⟨start, final, by rw [checkSound, hs, hf]; rfl⟩)
  have hf := has_finals_iff_not_fails.2 final
  by_cases target : a.Fails .target
  · have ht : a.hasTargets = false :=
      Bool.eq_false_iff.2 fun h => hasTargets_iff_not_fails.1 h target
    exact .inr (.inr (.inl ⟨start, final, target, by rw [checkSound, hs, hf, ht]; rfl⟩))
  have ht := hasTargets_iff_not_fails.2 target
  -- only now do epsilon transitions have no other way to fail than to go on for ever
  by_cases cycle : a.Fails .epsilonCycle
  · have hc : a.settles = false :=
      Bool.eq_false_iff.2 fun h => (settles_iff_not_fails ht).1 h cycle
    exact .inr (.inr (.inr (.inl ⟨start, final, target, cycle,
      by rw [checkSound, hs, hf, ht, hc]; rfl⟩)))
  · have hc := (settles_iff_not_fails ht).2 cycle
    exact .inr (.inr (.inr (.inr ⟨start, final, target, cycle,
      by rw [checkSound, hs, hf, ht, hc]; rfl⟩)))

/-- A graph is sound unless a reason to refuse it applies, and of several reasons the first one is
given. The bound on epsilon transitions refuses no chain of them that ends, however long, and every
one that comes to a cycle, also from outside. -/
theorem checkSound_decides (a : Automaton) :
    (a.checkSound = .ok () ↔ ∀ reason, ¬a.Fails reason) ∧
    (a.checkSound = .error .start ↔ a.Fails .start) ∧
    (a.checkSound = .error .final ↔ ¬a.Fails .start ∧ a.Fails .final) ∧
    (a.checkSound = .error .target ↔ ¬a.Fails .start ∧ ¬a.Fails .final ∧ a.Fails .target) ∧
    (a.checkSound = .error .epsilonCycle ↔
      ¬a.Fails .start ∧ ¬a.Fails .final ∧ ¬a.Fails .target ∧ a.Fails .epsilonCycle) ∧
    (∀ count id here, a.Hops count id here → a.closure? id = some here) ∧
    (∀ s, a.Endless s ↔
      ∃ t, Relation.ReflTransGen a.Passes s t ∧ Relation.TransGen a.Passes t t) ∧
    ∀ id s, a.state? id = some s → a.Endless s → a.closure? id = none := by
  have every : (∀ reason, ¬a.Fails reason) ↔
      ¬a.Fails .start ∧ ¬a.Fails .final ∧ ¬a.Fails .target ∧ ¬a.Fails .epsilonCycle :=
    ⟨fun h => ⟨h _, h _, h _, h _⟩, fun ⟨hs, hf, ht, hc⟩ reason => by cases reason <;> assumption⟩
  have cases := a.checkSound_cases
  refine ⟨?_, ?_, ?_, ?_, ?_, fun _ _ _ hh => closure?_eq_some_iff.2 ⟨_, hh⟩,
    fun s => ⟨Endless.exists_cycle, fun ⟨t, reached, cycle⟩ => .of_cycle reached cycle⟩,
    fun _ _ => closure?_eq_none_of_endless⟩
  · rw [every]
    rcases cases with h | h | h | h | h <;> simp [h]
  all_goals rcases cases with h | h | h | h | h <;> simp [h]

end Automaton
end Meld
