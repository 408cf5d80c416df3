import Mathlib.Data.List.Sublists
import Meld.Proofs.Sound
import Meld.Proofs.Trusting

namespace Meld.Automaton

theorem unseen_append (xs ys : List StateId) (seen : Std.HashSet StateId) :
    unseen (xs ++ ys) seen =
      ((unseen xs seen).1 ++ (unseen ys (unseen xs seen).2).1,
        (unseen ys (unseen xs seen).2).2) := by
  induction xs generalizing seen with
  | nil => rfl
  | cons x xs ih =>
    simp only [List.cons_append, unseen]
    split
    · exact ih seen
    · simp only [ih, List.cons_append]

/-- What has been seen is just what is known: no state twice, and only states of the graph. -/
structure Explored (a : Automaton) (known : List StateId) (seen : Std.HashSet StateId) : Prop where
  nodup : known.Nodup
  has : ∀ id ∈ known, a.has id = true
  contains_iff : ∀ id, seen.contains id = true ↔ id ∈ known

variable {a : Automaton} {id : StateId} {known level : List StateId} {seen : Std.HashSet StateId}

namespace Explored

theorem initial (h : a.has a.start = true) : a.Explored [a.start] {a.start} where
  nodup := List.nodup_singleton a.start
  has id hid := by rwa [List.mem_singleton.1 hid]
  contains_iff id := by
    have hs : ({a.start} : Std.HashSet StateId).contains id = true ↔ a.start = id := by simp
    rw [hs, List.mem_singleton, eq_comm]

theorem length_le (h : a.Explored known seen) : known.length ≤ a.size := by
  have nodup : (known.map UInt32.toNat).Nodup := h.nodup.map fun _ _ => UInt32.toNat_inj.1
  have within : known.map UInt32.toNat ⊆ List.range a.size := by
    intro i hi
    obtain ⟨id, hid, rfl⟩ := List.mem_map.1 hi
    exact List.mem_range.2 (of_decide_eq_true (h.has id hid))
  have hle := (List.subperm_of_subset nodup within).length_le
  rwa [List.length_map, List.length_range] at hle

theorem unseen (h : a.Explored known seen) {ids : List StateId}
    (hi : ∀ id ∈ ids, a.has id = true) :
    a.Explored (known ++ (unseen ids seen).1) (unseen ids seen).2 := by
  induction ids generalizing known seen with
  | nil => simpa [Automaton.unseen] using h
  | cons x ids ih =>
    have rest := fun id hid => hi id (List.mem_cons_of_mem x hid)
    unfold Automaton.unseen
    split
    · exact ih h rest
    · next hx =>
      have new : x ∉ known := mt (h.contains_iff x).2 hx
      have next : a.Explored (known ++ [x]) (seen.insert x) := by
        refine ⟨?_, ?_, fun id => ?_⟩
        · rw [List.nodup_append]
          refine ⟨h.nodup, List.nodup_singleton x, fun y hy z hz => ?_⟩
          rintro rfl
          exact new (List.mem_singleton.1 hz ▸ hy)
        · intro id hid
          rcases List.mem_append.1 hid with hid | hid
          · exact h.has id hid
          · rw [List.mem_singleton.1 hid]
            exact hi x List.mem_cons_self
        · rw [Std.HashSet.contains_insert, Bool.or_eq_true, h.contains_iff, List.mem_append,
            List.mem_singleton, beq_iff_eq, or_comm, eq_comm]
      have ends := ih next rest
      rwa [List.append_assoc] at ends

end Explored

theorem stateLines_eq {s : State} (h : a.state? id = some s) :
    a.stateLines id = a.nodeLine id :: s.transitions.map (edgeLine id) := by
  simp only [stateLines, h, Option.map_some, Option.getD_some]

theorem Sound.has_of_mem_targets (h : a.Sound) {next : StateId} (hn : next ∈ a.targets id) :
    a.has next = true := by
  cases hs : a.state? id with
  | none => simp [Automaton.targets, hs] at hn
  | some s =>
    rw [targets_eq hs] at hn
    obtain ⟨t, ht, rfl⟩ := List.mem_map.1 hn
    exact h.has_target hs ht

theorem Sound.has_of_mem_level (h : a.Sound) (hid : id ∈ level.flatMap a.targets) :
    a.has id = true := by
  obtain ⟨source, -, hid⟩ := List.mem_flatMap.1 hid
  exact h.has_of_mem_targets hid

namespace Trusting

theorem drawFrom_cons {s : State} (hs : a.state? id = some s) (queue : List StateId)
    (seen : Std.HashSet StateId) (states : Nat) :
    drawFrom a (states + 1) (id :: queue) seen =
      (drawFrom a states (queue ++ (unseen (a.targets id) seen).1)
        (unseen (a.targets id) seen).2).map (a.stateLines id ++ ·) := by
  rw [drawFrom, state_eq hs, stateLines_eq hs, targets_eq hs]
  change (drawFrom a states _ _).bind _ = _
  cases drawFrom a states _ _ <;> rfl

/-- A queue is left level by level: what is discovered from a level comes behind it. -/
theorem drawFrom_level (hl : ∀ id ∈ level, a.has id = true) (queue : List StateId)
    (seen : Std.HashSet StateId) (states : Nat) :
    drawFrom a (level.length + states) (level ++ queue) seen =
      (drawFrom a states (queue ++ (unseen (level.flatMap a.targets) seen).1)
        (unseen (level.flatMap a.targets) seen).2).map (level.flatMap a.stateLines ++ ·) := by
  induction level generalizing queue seen with
  | nil =>
    have hn : (unseen ([].flatMap a.targets) seen) = ([], seen) := rfl
    rw [hn, List.append_nil, List.length_nil, Nat.zero_add, List.nil_append]
    cases drawFrom a states queue seen <;> rfl
  | cons id level ih =>
    obtain ⟨s, hs⟩ := has_iff.1 (hl id List.mem_cons_self)
    have rest := ih fun id hid => hl id (List.mem_cons_of_mem _ hid)
    rw [List.length_cons, Nat.add_right_comm, List.cons_append, drawFrom_cons hs, List.append_assoc,
      rest]
    simp only [List.flatMap_cons, unseen_append, List.append_assoc]
    cases drawFrom a states _ _ with
    | error _ => rfl
    | ok lines => rfl

theorem drawFrom_eq (h : a.Sound) {done : List StateId} {distances states : Nat}
    (he : a.Explored (done ++ level) seen) (hd : a.size ≤ done.length + distances)
    (hs : a.size ≤ done.length + states) :
    drawFrom a states level seen =
      .ok ((a.discoverFrom distances level seen).flatMap a.stateLines) := by
  have hle := he.length_le
  rw [List.length_append] at hle
  induction distances generalizing done level seen states with
  | zero =>
    -- all states are done, so none is left for this level
    obtain rfl : level = [] := List.length_eq_zero_iff.1 (by omega)
    cases states <;> rfl
  | succ distances ih =>
    by_cases hl : level = []
    · subst hl
      cases states <;> rfl
    · have hpos := List.length_pos_iff.2 hl
      obtain ⟨rest, rfl⟩ := Nat.exists_eq_add_of_le (show level.length ≤ states by omega)
      have within : ∀ id ∈ level, a.has id = true :=
        fun id hid => he.has id (List.mem_append_right done hid)
      have targets : ∀ id ∈ level.flatMap a.targets, a.has id = true :=
        fun id => h.has_of_mem_level
      have next := he.unseen targets
      have hlen := next.length_le
      have hlevel := drawFrom_level within [] seen rest
      rw [List.append_nil, List.nil_append] at hlevel
      rw [hlevel, ih next (by rw [List.length_append]; omega) (by rw [List.length_append]; omega)
        (by rwa [← List.length_append])]
      have hn : level.isEmpty = false := by rwa [List.isEmpty_eq_false_iff]
      simp only [discoverFrom, hn, Bool.false_eq_true, if_false, List.flatMap_append]
      rfl

theorem draw_eq (h : a.Sound) : draw a = .ok a.diagram := by
  have hd : drawFrom a a.size [a.start] {a.start} = .ok (a.discover.flatMap a.stateLines) := by
    have none_done : a.size ≤ ([] : List StateId).length + a.size := Nat.le_add_left ..
    exact drawFrom_eq h (Explored.initial h.start) none_done none_done
  rw [draw, hd]
  rfl

end Trusting
end Meld.Automaton
