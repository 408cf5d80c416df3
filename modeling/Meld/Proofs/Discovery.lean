import Meld.Proofs.Drawing

namespace Meld.Automaton

inductive Away (a : Automaton) : Nat → StateId → Prop where
  | start : Away a 0 a.start
  | step {count : Nat} {id next : StateId} : Away a count id → next ∈ a.targets id →
      Away a (count + 1) next

def NoFarther (a : Automaton) (id later : StateId) : Prop :=
  ∀ count, a.Away count later → ∃ n ≤ count, a.Away n id

/-- All states that can be reached, each once, and where it is met first: the start before all
others, and then what the transitions of the states in turn lead to. -/
structure BreadthFirst (a : Automaton) (order : List StateId) : Prop where
  nodup : order.Nodup
  mem_iff : ∀ id, id ∈ order ↔ a.Reachable id
  first_met : order = (a.start :: order.flatMap a.targets).eraseDups
  nearest_first : order.Pairwise a.NoFarther

variable {a : Automaton} {id next : StateId} {count distance distances : Nat}
  {known done level order order' front : List StateId} {seen : Std.HashSet StateId}

theorem reachable_iff_away : a.Reachable id ↔ ∃ count, a.Away count id := by
  constructor
  · intro h
    induction h with
    | start => exact ⟨0, .start⟩
    | step _ hn ih =>
      obtain ⟨count, ha⟩ := ih
      exact ⟨count + 1, ha.step hn⟩
  · rintro ⟨count, ha⟩
    induction ha with
    | start => exact .start
    | step _ hn ih => exact ih.step hn

theorem unseen_eq (h : ∀ id, seen.contains id = true ↔ id ∈ known) (ids : List StateId) :
    (unseen ids seen).1 = (ids.removeAll known).eraseDups := by
  induction ids generalizing seen known with
  | nil => rfl
  | cons id ids ih =>
    unfold unseen
    split
    · next hs =>
      rw [ih h, List.cons_removeAll, if_neg (by simpa using (h id).1 hs)]
    · next hs =>
      have hk : id ∉ known := mt (h id).2 hs
      have also : ∀ id', (seen.insert id).contains id' = true ↔ id' ∈ id :: known := by
        intro id'
        rw [Std.HashSet.contains_insert, Bool.or_eq_true, h, List.mem_cons, beq_iff_eq, eq_comm]
      rw [List.cons_removeAll, if_pos (by simpa using hk), List.eraseDups_cons]
      change id :: (unseen ids (seen.insert id)).1 = _
      rw [ih also, List.removeAll_cons]
      simp only [List.removeAll, List.filter_filter, Bool.and_comm]

theorem mem_unseen_iff (h : ∀ id, seen.contains id = true ↔ id ∈ known) (ids : List StateId) :
    id ∈ (unseen ids seen).1 ↔ id ∈ ids ∧ id ∉ known := by
  rw [unseen_eq h, List.mem_eraseDups]
  simp [List.removeAll]

/-- The states that are done are all those nearer than the given distance, and the level is made of
all those just as far. -/
structure Layered (a : Automaton) (distance : Nat) (done level : List StateId) : Prop where
  done_iff : ∀ id, id ∈ done ↔ ∃ n < distance, a.Away n id
  known_iff : ∀ id, id ∈ done ++ level ↔ ∃ n ≤ distance, a.Away n id
  first_met : done ++ level = (a.start :: done.flatMap a.targets).eraseDups
  nearest_first : (done ++ level).Pairwise a.NoFarther

namespace Layered

theorem initial (a : Automaton) : a.Layered 0 [] [a.start] where
  done_iff id := by simp
  known_iff id := by
    constructor
    · intro hid
      obtain rfl := List.mem_singleton.1 hid
      exact ⟨0, Nat.le_refl 0, .start⟩
    · rintro ⟨n, hn, ha⟩
      obtain rfl := Nat.le_zero.1 hn
      cases ha with
      | start => exact List.mem_singleton_self a.start
  first_met := rfl
  nearest_first := List.pairwise_singleton ..

/-- What is met from the level for the first time is one transition farther. -/
theorem step (h : a.Layered distance done level) (he : a.Explored (done ++ level) seen) :
    a.Layered (distance + 1) (done ++ level) (unseen (level.flatMap a.targets) seen).1 := by
  have mem_next (id : StateId) : id ∈ (unseen (level.flatMap a.targets) seen).1 ↔
      id ∈ level.flatMap a.targets ∧ id ∉ done ++ level := mem_unseen_iff he.contains_iff _
  have known_iff (id : StateId) :
      id ∈ done ++ level ++ (unseen (level.flatMap a.targets) seen).1 ↔
        ∃ n ≤ distance + 1, a.Away n id := by
    rw [List.mem_append, mem_next]
    constructor
    · rintro (hid | ⟨hid, -⟩)
      · obtain ⟨n, hn, ha⟩ := (h.known_iff id).1 hid
        exact ⟨n, Nat.le_succ_of_le hn, ha⟩
      · obtain ⟨source, hs, hid⟩ := List.mem_flatMap.1 hid
        obtain ⟨n, hn, ha⟩ := (h.known_iff source).1 (List.mem_append_right done hs)
        exact ⟨n + 1, Nat.succ_le_succ hn, ha.step hid⟩
    · rintro ⟨n, hn, ha⟩
      by_cases hk : id ∈ done ++ level
      · exact .inl hk
      · refine .inr ⟨?_, hk⟩
        have far {m : Nat} (ha : a.Away m id) : distance < m :=
          Nat.lt_of_not_le fun hm => hk ((h.known_iff id).2 ⟨m, hm, ha⟩)
        cases ha with
        | start => exact absurd (far .start) (Nat.not_lt_zero _)
        | @step n source _ ha hid =>
          -- a source that is done would have brought the state closer
          have hs := (h.known_iff source).2 ⟨n, Nat.le_of_succ_le_succ hn, ha⟩
          rcases List.mem_append.1 hs with hs | hs
          · obtain ⟨m, hm, ha⟩ := (h.done_iff source).1 hs
            exact absurd (far (ha.step hid)) (Nat.not_lt.2 hm)
          · exact List.mem_flatMap_of_mem hs hid
  refine ⟨fun id => ?_, known_iff, ?_, ?_⟩
  · simp only [h.known_iff, Nat.lt_succ_iff]
  · rw [List.flatMap_append, ← List.cons_append, List.eraseDups_append, ← h.first_met]
    congr 1
    apply unseen_eq
    intro id
    rw [he.contains_iff, h.first_met, List.mem_eraseDups]
  · have later {id next : StateId}
        (hid : id ∈ done ++ level ++ (unseen (level.flatMap a.targets) seen).1)
        (hn : next ∈ (unseen (level.flatMap a.targets) seen).1) : a.NoFarther id next := by
      intro count ha
      obtain ⟨n, hle, hid⟩ := (known_iff id).1 hid
      have far : distance < count := by
        refine Nat.lt_of_not_le fun hc => ((mem_next next).1 hn).2 ?_
        exact (h.known_iff next).2 ⟨count, hc, ha⟩
      exact ⟨n, by omega, hid⟩
    rw [List.pairwise_append]
    refine ⟨h.nearest_first, ?_, fun id hid next => later (List.mem_append_left _ hid)⟩
    exact List.pairwise_of_forall_mem_list fun id hid next =>
      later (List.mem_append_right _ hid)

/-- Once a level is empty, what is done is all there is. -/
theorem breadthFirst (h : a.Layered distance done []) (nodup : done.Nodup) :
    a.BreadthFirst done where
  nodup := nodup
  mem_iff id := by
    have known_iff := h.known_iff
    rw [List.append_nil] at known_iff
    rw [reachable_iff_away]
    constructor
    · intro hid
      obtain ⟨n, -, ha⟩ := (known_iff id).1 hid
      exact ⟨n, ha⟩
    · rintro ⟨count, ha⟩
      induction ha with
      | start => exact (known_iff a.start).2 ⟨0, Nat.zero_le distance, .start⟩
      | step _ hn ih =>
        obtain ⟨n, hlt, ha⟩ := (h.done_iff _).1 ih
        exact (known_iff _).2 ⟨n + 1, hlt, ha.step hn⟩
  first_met := by
    have first_met := h.first_met
    rwa [List.append_nil] at first_met
  nearest_first := by
    have nearest_first := h.nearest_first
    rwa [List.append_nil] at nearest_first

end Layered

/-- Each level but the last adds to what is done, so there are no more levels than states. -/
theorem breadthFirst_discoverFrom (h : a.Sound) (hl : a.Layered distance done level)
    (he : a.Explored (done ++ level) seen) (hd : a.size ≤ done.length + distances) :
    a.BreadthFirst (done ++ a.discoverFrom distances level seen) := by
  induction distances generalizing distance done level seen with
  | zero =>
    have hle := he.length_le
    rw [List.length_append] at hle
    obtain rfl : level = [] := List.length_eq_zero_iff.1 (by omega)
    rw [discoverFrom]
    rw [List.append_nil] at he ⊢
    exact hl.breadthFirst he.nodup
  | succ distances ih =>
    by_cases hn : level = []
    · subst hn
      simp only [discoverFrom, List.isEmpty_nil, if_true]
      rw [List.append_nil] at he ⊢
      exact hl.breadthFirst he.nodup
    · have hpos := List.length_pos_iff.2 hn
      have hi := ih (hl.step he) (he.unseen fun id => h.has_of_mem_level)
        (by rw [List.length_append]; omega)
      simp only [discoverFrom, List.isEmpty_eq_false_iff.2 hn, Bool.false_eq_true, if_false]
      rwa [List.append_assoc] at hi

theorem breadthFirst_discover (h : a.Sound) : a.BreadthFirst a.discover := by
  have hi := breadthFirst_discoverFrom h (.initial a) (.initial h.start)
    (Nat.le_add_left a.size ([] : List StateId).length)
  rwa [List.nil_append] at hi

namespace BreadthFirst

/-- What is first met from the states at the front of the order comes next in it. -/
theorem prefix_of_front (h : a.BreadthFirst order) (hf : front <+: order) :
    (a.start :: front.flatMap a.targets).eraseDups <+: order := by
  obtain ⟨rest, rfl⟩ := hf
  have first_met := h.first_met
  rw [List.flatMap_append, ← List.cons_append, List.eraseDups_append] at first_met
  exact ⟨_, first_met.symm⟩

theorem take_isPrefix (h : a.BreadthFirst order) (h' : a.BreadthFirst order') (n : Nat) :
    order.take n <+: order' := by
  induction n with
  | zero => exact List.nil_prefix
  | succ n ih =>
    have front := List.take_prefix n order
    have next := List.take_prefix (n + 1) order
    have met := h.prefix_of_front front
    have met' := h'.prefix_of_front ih
    by_cases hn : n < (a.start :: (order.take n).flatMap a.targets).eraseDups.length
    · -- the front determines the state behind it
      have within := List.prefix_of_prefix_length_le next met
        (Nat.le_trans (List.length_take_le ..) hn)
      exact within.trans met'
    · -- nothing more is met from the front, so it is all of the order
      have within := List.prefix_of_prefix_length_le met front (by
        rw [List.length_take]
        exact Nat.le_min.2 ⟨Nat.le_of_not_lt hn, met.length_le⟩)
      have mem_front {id : StateId} (hid : a.Reachable id) : id ∈ order.take n := by
        apply within.subset
        rw [List.mem_eraseDups]
        induction hid with
        | start => exact List.mem_cons_self
        | step _ hn ih =>
          have hf := within.subset (List.mem_eraseDups.2 ih)
          exact List.mem_cons_of_mem _ (List.mem_flatMap_of_mem hf hn)
      have all : order ⊆ order.take n := fun id hid => mem_front ((h.mem_iff id).1 hid)
      have hlen := (List.subperm_of_subset h.nodup all).length_le
      rw [List.length_take] at hlen
      rw [List.take_of_length_le (by omega)] at ih ⊢
      exact ih

/-- There is one breadth-first order only. -/
theorem unique (h : a.BreadthFirst order) (h' : a.BreadthFirst order') : order = order' := by
  have same : order.Perm order' := (List.perm_ext_iff_of_nodup h.nodup h'.nodup).2 fun id =>
    (h.mem_iff id).trans (h'.mem_iff id).symm
  have front := h.take_isPrefix h' order.length
  rw [List.take_length] at front
  exact front.eq_of_length same.length_eq

end BreadthFirst

end Meld.Automaton
