import Mathlib.Data.Fintype.Card
import Meld.Automaton.Soundness
import Meld.Proofs.Resolution
import Meld.Snapshot.Restore

namespace Meld.Automaton

/-- All that is named in a graph is there, and no epsilon transitions go on for ever. -/
structure Sound (a : Automaton) : Prop where
  start : a.has a.start = true
  finals : ∀ id ∈ a.finals, a.has id = true
  targets : ∀ s ∈ a.states, ∀ t ∈ s.transitions, a.has t.target = true
  closure : ∀ id, a.has id = true → ∃ here, a.closure? id = some here

variable {a : Automaton} {id here there next : StateId} {count n : Nat} {s : State}

theorem has_iff : a.has id = true ↔ ∃ s, a.state? id = some s := by
  rw [has, decide_eq_true_eq, ← Option.isSome_iff_exists, state?, size]
  simp

theorem has_of_state? (h : a.state? id = some s) : a.has id = true := has_iff.2 ⟨s, h⟩

theorem mem_states_of_state? (h : a.state? id = some s) : s ∈ a.states :=
  Array.mem_of_getElem? h

theorem hasTargets_iff : a.hasTargets = true ↔
    ∀ s ∈ a.states, ∀ t ∈ s.transitions, a.has t.target = true := by
  simp only [hasTargets, List.all_eq_true, Array.mem_toList_iff]

theorem settles_iff : a.settles = true ↔
    ∀ id, a.has id = true → ∃ here, a.closure? id = some here := by
  simp only [settles, List.all_eq_true, List.mem_range, ← Option.isSome_iff_exists, has,
    decide_eq_true_eq]
  constructor
  · intro h id hid
    have hc := h id.toNat hid
    rwa [UInt32.ofNat_toNat] at hc
  · intro h i hi
    apply h
    rw [UInt32.toNat_ofNat']
    exact Nat.lt_of_le_of_lt (Nat.mod_le ..) hi

theorem checkSound_eq_ok_iff : a.checkSound = .ok () ↔ a.Sound := by
  have parts : a.Sound ↔ a.has a.start = true ∧ a.finals.all a.has = true ∧
      a.hasTargets = true ∧ a.settles = true := by
    rw [List.all_eq_true, hasTargets_iff, settles_iff]
    exact ⟨fun h => ⟨h.start, h.finals, h.targets, h.closure⟩,
      fun h => ⟨h.1, h.2.1, h.2.2.1, h.2.2.2⟩⟩
  rw [parts, checkSound]
  cases a.has a.start <;> cases a.finals.all a.has <;> cases a.hasTargets <;> cases a.settles <;>
    simp

theorem ofBytes_eq_ok_iff {bytes : List UInt8} : ofBytes bytes = .ok a ↔
    (∃ rest, Snapshot.read bytes = .ok (a, rest)) ∧ a.checkSound = .ok () := by
  constructor
  · intro h
    unfold ofBytes at h
    split at h
    · contradiction
    · next hr =>
      split at h
      · contradiction
      · next hs =>
        obtain rfl := Except.ok.inj h
        exact ⟨⟨_, hr⟩, hs⟩
  · rintro ⟨⟨rest, hr⟩, hs⟩
    simp only [ofBytes, hr, hs]

theorem sound_of_ofBytes {bytes : List UInt8} (h : ofBytes bytes = .ok a) : a.Sound :=
  checkSound_eq_ok_iff.1 (ofBytes_eq_ok_iff.1 h).2

/-- The given number of epsilon transitions lead from one state to another, and no more lead on. -/
inductive Hops (a : Automaton) : Nat → StateId → StateId → Prop where
  | rest {id : StateId} {s : State} : a.state? id = some s → s.epsilon? = none → Hops a 0 id id
  | hop {count : Nat} {id next here : StateId} {s : State} : a.state? id = some s →
      s.epsilon? = some next → Hops a count next here → Hops a (count + 1) id here

theorem exists_hops_of_settle (h : a.settle n id = some here) :
    ∃ count ≤ n, a.Hops count id here := by
  fun_induction settle a n id with
  | case1 => contradiction
  | case2 n id s hs he =>
    obtain rfl := Option.some.inj h
    exact ⟨0, Nat.zero_le n, .rest hs he⟩
  | case3 => contradiction
  | case4 id s hs next hops he ih =>
    obtain ⟨count, hc, hh⟩ := ih h
    exact ⟨count + 1, Nat.succ_le_succ hc, .hop hs he hh⟩

namespace Hops

theorem settle (h : a.Hops count id here) (hn : count ≤ n) : a.settle n id = some here := by
  induction h generalizing n with
  | rest hs he => exact settle_of_epsilon?_eq_none hs he n
  | hop hs he _ ih =>
    obtain ⟨n, rfl⟩ := Nat.exists_eq_add_one.2 (Nat.lt_of_lt_of_le (Nat.zero_lt_succ _) hn)
    unfold Automaton.settle
    simp only [hs, he]
    exact ih (Nat.le_of_succ_le_succ hn)

theorem has (h : a.Hops count id here) : a.has id = true := by
  cases h with
  | rest hs => exact has_of_state? hs
  | hop hs => exact has_of_state? hs

theorem end_state (h : a.Hops count id here) :
    ∃ s, a.state? here = some s ∧ s.epsilon? = none := by
  induction h with
  | rest hs he => exact ⟨_, hs, he⟩
  | hop _ _ _ ih => exact ih

theorem unique {count' : Nat} (h : a.Hops count id here) (h' : a.Hops count' id there) :
    count = count' ∧ here = there := by
  induction h generalizing count' with
  | rest hs he =>
    cases h' with
    | rest => exact ⟨rfl, rfl⟩
    | hop hs' he' =>
      rw [Option.some.inj (hs.symm.trans hs'), he'] at he
      contradiction
  | hop hs he _ ih =>
    cases h' with
    | rest hs' he' =>
      rw [Option.some.inj (hs.symm.trans hs'), he'] at he
      contradiction
    | hop hs' he' h' =>
      rw [Option.some.inj (hs.symm.trans hs'), he', Option.some.injEq] at he
      subst he
      obtain ⟨rfl, rfl⟩ := ih h'
      exact ⟨rfl, rfl⟩

theorem exists_of_le (h : a.Hops count id here) {k : Nat} (hk : k ≤ count) :
    ∃ id, a.Hops k id here := by
  induction h generalizing k with
  | rest hs he =>
    obtain rfl := Nat.le_zero.1 hk
    exact ⟨_, .rest hs he⟩
  | hop hs he h ih =>
    rcases Nat.lt_or_eq_of_le hk with hlt | rfl
    · exact ih (Nat.le_of_lt_succ hlt)
    · exact ⟨_, .hop hs he h⟩

/-- The states of a chain differ in how far they are from its end, so they are not more than there
are states at all. -/
theorem lt_size (h : a.Hops count id here) : count < a.size := by
  have states (k : Fin (count + 1)) : ∃ i : Fin a.size, a.Hops k (UInt32.ofNat i) here := by
    obtain ⟨id, hid⟩ := h.exists_of_le (Nat.le_of_lt_succ k.isLt)
    have hi : id.toNat < a.size := of_decide_eq_true hid.has
    exact ⟨⟨id.toNat, hi⟩, by rwa [UInt32.ofNat_toNat]⟩
  choose f hf using states
  have injective : Function.Injective f := by
    intro j k hjk
    -- one state cannot be at two distances from the end
    have hj := hf j
    rw [hjk] at hj
    exact Fin.ext (hj.unique (hf k)).1
  have hle := Fintype.card_le_of_injective f injective
  rwa [Fintype.card_fin, Fintype.card_fin] at hle

end Hops

theorem closure?_eq_some_iff : a.closure? id = some here ↔ ∃ count, a.Hops count id here := by
  constructor
  · intro h
    obtain ⟨count, -, hh⟩ := exists_hops_of_settle h
    exact ⟨count, hh⟩
  · rintro ⟨count, hh⟩
    exact hh.settle (Nat.le_of_lt hh.lt_size)

theorem Sound.hops (h : a.Sound) (hid : a.has id = true) :
    ∃ count < a.size, ∃ here, a.closure? id = some here ∧ a.Hops count id here := by
  obtain ⟨here, hc⟩ := h.closure id hid
  obtain ⟨count, hh⟩ := closure?_eq_some_iff.1 hc
  exact ⟨count, hh.lt_size, here, hc, hh⟩

theorem Sound.has_target (h : a.Sound) (hs : a.state? id = some s) {t : Transition}
    (ht : t ∈ s.transitions) : a.has t.target = true :=
  h.targets s (mem_states_of_state? hs) t ht

theorem Sound.has_step (h : a.Sound) {card : Card} (hs : a.step? id card = some next) :
    a.has next = true := by
  obtain ⟨here, -, hs⟩ := Option.bind_eq_some_iff.1 hs
  obtain ⟨s, hstate, hn⟩ := Option.bind_eq_some_iff.1 hs
  obtain ⟨t, ht, -, rfl⟩ := State.exists_mem_of_step?_eq_some hn
  exact h.has_target hstate ht

theorem step?_eq_none_of_not_has (h : a.has id = false) (card : Card) : a.step? id card = none := by
  have hn : a.state? id = none := by
    cases hs : a.state? id with
    | none => rfl
    | some s => rw [has_of_state? hs] at h; contradiction
  have hc : a.closure? id = none := by
    unfold closure? settle
    rw [hn]
  rw [step?, hc, Option.bind_none]

end Meld.Automaton
