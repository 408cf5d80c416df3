import Meld.Automaton.Reach
import Meld.Proofs.Sound
import Meld.Proofs.Tidy

namespace Meld

open Blueprint

theorem State.place_eq_append {guard : Guard} {target : StateId} {ts : List Transition}
    (h : ∀ t ∈ ts, t.guard ≠ guard) : place guard target ts = ts ++ [⟨guard, target⟩] := by
  induction ts with
  | nil => rfl
  | cons t ts ih =>
    rw [place, if_neg (h t List.mem_cons_self), ih fun u hu => h u (List.mem_cons_of_mem t hu),
      List.cons_append]

namespace Blueprint

/-- The epsilon transitions: whatever completes one plan leads on to the start of the next. -/
def joins : Nat → List Plan → List (StateId × StateId)
  | _, [] => []
  | _, [_] => []
  | base, p :: q :: ps =>
    p.ends.map (fun r => (p.stateId base r, q.stateId (base + p.size) .start)) ++
      joins (base + p.size) (q :: ps)

namespace Plan

variable {p : Plan} {q : Place} {base next : Nat}

theorem transitions_state_of_mem_ends (hp : p.Orderly) (hq : q ∈ p.places) (he : q ∈ p.ends)
    (p' : Plan) (ps : List Plan) : (p.state base (exitTo next (p' :: ps)) q).transitions =
      (p.edges q).map (fun (guard, r) => ⟨guard, p.stateId base r⟩) ++
        [⟨.epsilon, p'.stateId next .start⟩] := by
  unfold state
  simp only [if_pos he, exitTo, Exit.apply, State.insert]
  apply State.place_eq_append
  intro t ht
  obtain ⟨e, hm, rfl⟩ := List.mem_map.1 ht
  exact hp.guard_ne q hq e hm

/-- A transition comes from an edge, or else it leads on to the next plan. -/
theorem mem_transitions_state (hp : p.Orderly) (hq : q ∈ p.places) {ps : List Plan}
    {t : Transition} : t ∈ (p.state base (exitTo next ps) q).transitions ↔
      (∃ e ∈ p.edges q, ⟨e.1, p.stateId base e.2⟩ = t) ∨
        q ∈ p.ends ∧ ∃ p' ps', ps = p' :: ps' ∧ t = ⟨.epsilon, p'.stateId next .start⟩ := by
  rcases p.within_or_joins q ps with hn | ⟨he, p', ps', rfl⟩
  · rw [transitions_state ps hn, List.mem_map, or_iff_left]
    rintro ⟨he, p', ps', rfl, -⟩
    exact hn.elim (fun hn => hn he) nofun
  · rw [transitions_state_of_mem_ends hp hq he, List.mem_append, List.mem_map, List.mem_singleton]
    apply or_congr_right
    constructor
    · rintro rfl
      exact ⟨he, p', ps', rfl, rfl⟩
    · rintro ⟨-, _, _, ⟨⟩, rfl⟩
      rfl

theorem epsilon_mem_transitions_state (hp : p.Orderly) (hq : q ∈ p.places) {ps : List Plan}
    {id : StateId} : ⟨.epsilon, id⟩ ∈ (p.state base (exitTo next ps) q).transitions ↔
      q ∈ p.ends ∧ ∃ p' ps', ps = p' :: ps' ∧ p'.stateId next .start = id := by
  rw [mem_transitions_state hp hq, or_iff_right]
  · simp only [Transition.mk.injEq, true_and, eq_comm]
  · rintro ⟨e, he, heq⟩
    exact hp.guard_ne q hq e he (congrArg Transition.guard heq)

theorem guards_state_nodup (hp : p.Orderly) (ht : p.Tidy) (hq : q ∈ p.places) (ps : List Plan) :
    ((p.state base (exitTo next ps) q).transitions.map (·.guard)).Nodup := by
  have edges : ((p.edges q).map fun (guard, r) => (⟨guard, p.stateId base r⟩ : Transition)).map
      (·.guard) = (p.edges q).map Prod.fst := List.map_map
  rcases p.within_or_joins q ps with hn | ⟨he, p', ps', rfl⟩
  · rw [transitions_state ps hn, edges]
    exact ht.guards_nodup q hq
  · -- no edge asks for what the epsilon transition asks for
    rw [transitions_state_of_mem_ends hp hq he, List.map_append, edges,
      List.map_singleton, (List.perm_append_singleton _ _).nodup_iff, List.nodup_cons]
    refine ⟨fun hm => ?_, ht.guards_nodup q hq⟩
    obtain ⟨e, hm, heq⟩ := List.mem_map.1 hm
    exact hp.guard_ne q hq e hm heq

theorem exists_mem_ends (hp : p.Orderly) : ∃ q, q ∈ p.ends := by
  apply List.exists_mem_of_ne_nil
  intro h
  have hn := hp.need_pos
  rw [need, h] at hn
  exact Nat.lt_irrefl 0 hn

end Plan
end Blueprint

namespace Automaton

/-- A graph in which nothing is missing, double or useless, with epsilon transitions between the
given states only. -/
structure WellFormed (a : Automaton) (joins : List (StateId × StateId)) : Prop where
  start : a.has a.start = true
  finals : ∀ id ∈ a.finals, a.has id = true
  targets : ∀ s ∈ a.states, ∀ t ∈ s.transitions, a.has t.target = true
  guards_nodup : ∀ s ∈ a.states, (s.transitions.map (·.guard)).Nodup
  mem_finals_iff : ∀ id, id ∈ a.finals ↔ a.isFinal id = true
  finals_nodup : a.finals.Nodup
  start_not_final : a.start ∉ a.finals
  epsilon_iff : ∀ id next,
    (∃ s, a.state? id = some s ∧ ⟨.epsilon, next⟩ ∈ s.transitions) ↔ (id, next) ∈ joins
  hops : ∀ id, a.has id = true → ∃ count ≤ 1, ∃ here, a.Hops count id here
  reachable : ∀ id, a.has id = true → a.Reachable id

variable {a : Automaton} {id next : StateId} {s : State}

theorem WellFormed.sound {joins : List (StateId × StateId)} (h : a.WellFormed joins) :
    a.Sound where
  start := h.start
  finals := h.finals
  targets := h.targets
  closure id hid := by
    obtain ⟨count, -, here, hh⟩ := h.hops id hid
    exact ⟨here, closure?_eq_some_iff.2 ⟨count, hh⟩⟩

theorem Reachable.of_transition (h : a.Reachable id) (hs : a.state? id = some s)
    {t : Transition} (ht : t ∈ s.transitions) : a.Reachable t.target := by
  refine h.step ?_
  rw [targets_eq hs]
  exact List.mem_map_of_mem ht

theorem has_of_isFinal (h : a.isFinal id = true) : a.has id = true := by
  obtain ⟨s, hs, -⟩ := (Option.any_eq_true ..).1 h
  exact has_of_state? hs

theorem exists_state?_of_mem (small : a.size < UInt32.size) (h : s ∈ a.states) :
    ∃ id, a.state? id = some s := by
  obtain ⟨i, hi, rfl⟩ := Array.mem_iff_getElem.1 h
  refine ⟨UInt32.ofNat i, ?_⟩
  rw [state?, UInt32.toNat_ofNat_of_lt' (Nat.lt_trans hi small)]
  exact Array.getElem?_eq_getElem hi

namespace Laid

variable {base : Nat} {p : Plan} {ps plans : List Plan} {q r : Place}

theorem has_stateId (h : a.Laid base (p :: ps)) (hq : q ∈ p.places) :
    a.has (p.stateId base q) = true :=
  has_of_state? (h.state?_stateId hq)

theorem le_stateId (h : a.Laid base (p :: ps)) (hq : q ∈ p.places) :
    base ≤ (p.stateId base q).toNat := by
  rw [h.toNat_stateId hq]
  exact Nat.le_add_right ..

theorem stateId_inj (h : a.Laid base (p :: ps)) (hq : q ∈ p.places) (hr : r ∈ p.places)
    (he : p.stateId base q = p.stateId base r) : q = r := by
  have hi := congrArg UInt32.toNat he
  rw [h.toNat_stateId hq, h.toNat_stateId hr] at hi
  have hp := h.head.numbered q hq
  rw [Nat.add_left_cancel hi, h.head.numbered r hr] at hp
  exact (Option.some.inj hp).symm

theorem lt_of_nil (h : a.Laid base []) (hid : a.has id = true) : id.toNat < base := by
  have hs := List.drop_eq_nil_iff.1 h.states_eq
  rw [Array.length_toList] at hs
  exact Nat.lt_of_lt_of_le (of_decide_eq_true hid) hs

theorem has_target (h : a.Laid base (p :: ps)) (hq : q ∈ p.places) {t : Transition}
    (ht : t ∈ (p.state base (exitTo (base + p.size) ps) q).transitions) :
    a.has t.target = true := by
  rcases (Plan.mem_transitions_state h.head hq).1 ht with
    ⟨e, he, rfl⟩ | ⟨-, p', ps', rfl, rfl⟩
  · exact h.has_stateId (h.head.target_mem q hq e he)
  · exact h.tail.has_stateId h.tail.head.start_mem

theorem hops (h : a.Laid base (p :: ps)) (hq : q ∈ p.places) :
    ∃ count ≤ 1, ∃ here, a.Hops count (p.stateId base q) here := by
  have hs := h.state?_stateId hq
  rcases p.within_or_joins q ps with hn | ⟨he, p', ps', rfl⟩
  · exact ⟨0, Nat.zero_le 1, _, .rest hs (Plan.epsilon?_state_eq_none h.head hq ps hn)⟩
  · -- a start has no epsilon transition, so that the chain ends there
    have rest : a.Hops 0 (p'.stateId (base + p.size) .start) _ :=
      .rest (h.tail.state?_stateId h.tail.head.start_mem) h.tail.epsilon?_start
    exact ⟨1, Nat.le_refl 1, _,
      .hop hs (Plan.epsilon?_state_of_mem_ends he p' ps') rest⟩

end Laid

structure Arranged (a : Automaton) (base : Nat) (plans : List Plan) : Prop
    extends a.Laid base plans where
  tidy : ∀ p ∈ plans, p.Tidy

namespace Arranged

variable {base : Nat} {p : Plan} {ps plans : List Plan} {q : Place}

theorem head_tidy (h : a.Arranged base (p :: ps)) : p.Tidy := h.tidy p List.mem_cons_self

theorem tail (h : a.Arranged base (p :: ps)) : a.Arranged (base + p.size) ps where
  toLaid := h.toLaid.tail
  tidy q hq := h.tidy q (List.mem_cons_of_mem p hq)

/-- A state belongs to the first plan or comes after it. -/
theorem place_or_le (h : a.Arranged base (p :: ps)) (hb : base ≤ id.toNat) :
    (∃ q ∈ p.places, p.stateId base q = id) ∨ base + p.size ≤ id.toNat := by
  by_cases hi : base + p.size ≤ id.toNat
  · exact .inr hi
  · obtain ⟨i, hid⟩ := Nat.exists_eq_add_of_le hb
    have hi : i < p.places.length := by
      change ¬base + p.places.length ≤ _ at hi
      omega
    have hq := List.getElem_mem hi
    have index : i = p.index p.places[i] :=
      (List.getElem?_inj hi h.head_tidy.places_nodup).1
        ((List.getElem?_eq_getElem hi).trans (h.head.numbered _ hq).symm)
    refine .inl ⟨p.places[i], hq, ?_⟩
    rw [Plan.stateId, ← index, ← hid, UInt32.ofNat_toNat]

/-- Each state is that of a place. -/
theorem exists_place (h : a.Arranged base plans) (hb : base ≤ id.toNat)
    (hid : a.has id = true) :
    ∃ first p ps, a.Arranged first (p :: ps) ∧ ∃ q ∈ p.places, p.stateId first q = id := by
  induction plans generalizing base with
  | nil => exact absurd (h.lt_of_nil hid) (Nat.not_lt.2 hb)
  | cons p ps ih =>
    rcases h.place_or_le hb with hq | hb
    · exact ⟨base, p, ps, h, hq⟩
    · exact ih h.tail hb

/-- From the start of a plan all its places are reached. -/
theorem reachable_place (h : a.Arranged base (p :: ps))
    (first : a.Reachable (p.stateId base .start)) (hq : q ∈ p.places) :
    a.Reachable (p.stateId base q) := by
  have along {q : Place} (hr : p.Reaches q) :
      q ∈ p.places ∧ a.Reachable (p.stateId base q) := by
    induction hr with
    | start => exact ⟨h.head.start_mem, first⟩
    | @edge q r guard _ he ih =>
      refine ⟨h.head.target_mem q ih.1 _ he, ?_⟩
      have ht : ⟨guard, p.stateId base r⟩ ∈
          (p.state base (exitTo (base + p.size) ps) q).transitions :=
        (Plan.mem_transitions_state h.head ih.1).2 (.inl ⟨_, he, rfl⟩)
      exact ih.2.of_transition (h.state?_stateId ih.1) ht
  exact (along (h.head_tidy.reaches q hq)).2

/-- A plan that is reached is left for the next one, so all plans are reached. -/
theorem reachable (h : a.Arranged base plans)
    (first : ∀ p ∈ plans.head?, a.Reachable (p.stateId base .start)) (hb : base ≤ id.toNat)
    (hid : a.has id = true) : a.Reachable id := by
  induction plans generalizing base with
  | nil => exact absurd (h.lt_of_nil hid) (Nat.not_lt.2 hb)
  | cons p ps ih =>
    have place {q : Place} (hq : q ∈ p.places) : a.Reachable (p.stateId base q) :=
      h.reachable_place (first p rfl) hq
    rcases h.place_or_le hb with ⟨q, hq, rfl⟩ | hb
    · exact place hq
    · refine ih h.tail (fun p' hp' => ?_) hb
      obtain ⟨ps', rfl⟩ := List.head?_eq_some_iff.1 hp'
      obtain ⟨q, he⟩ := Plan.exists_mem_ends h.head
      have hq := h.head_tidy.ends_subset he
      exact (place hq).of_transition (h.state?_stateId hq)
        ((Plan.mem_transitions_state h.head hq).2 (.inr ⟨he, p', ps', rfl, rfl⟩))

/-- Only the last plan has final states. -/
theorem mem_finals_iff (h : a.Arranged base plans) :
    id ∈ Blueprint.finals base plans ↔ base ≤ id.toNat ∧ a.isFinal id = true := by
  fun_induction Blueprint.finals base plans with
  | case1 base =>
    refine iff_of_false List.not_mem_nil ?_
    rintro ⟨hb, hf⟩
    exact Nat.not_lt.2 hb (h.lt_of_nil (has_of_isFinal hf))
  | case2 base p =>
    rw [List.mem_map]
    constructor
    · rintro ⟨q, he, rfl⟩
      have hq := h.head_tidy.ends_subset he
      exact ⟨h.le_stateId hq, (h.isFinal_stateId hq).2 ⟨he, rfl⟩⟩
    · rintro ⟨hb, hf⟩
      rcases h.place_or_le hb with ⟨q, hq, rfl⟩ | hb
      · exact ⟨q, ((h.isFinal_stateId hq).1 hf).1, rfl⟩
      · exact absurd (h.tail.lt_of_nil (has_of_isFinal hf)) (Nat.not_lt.2 hb)
  | case3 base p p' ps ih =>
    rw [ih h.tail]
    apply and_congr_left
    intro hf
    refine ⟨fun hb => Nat.le_trans (Nat.le_add_right ..) hb, fun hb => ?_⟩
    -- what is final is not of this plan, as another plan follows
    refine (h.place_or_le hb).resolve_left ?_
    rintro ⟨q, hq, rfl⟩
    exact List.cons_ne_nil p' ps ((h.isFinal_stateId hq).1 hf).2

theorem finals_nodup (h : a.Arranged base plans) :
    (Blueprint.finals base plans).Nodup := by
  fun_induction Blueprint.finals base plans with
  | case1 => exact List.nodup_nil
  | case2 base p =>
    have hp := h.head_tidy
    exact hp.ends_nodup.map_on fun q hq r hr he =>
      h.stateId_inj (hp.ends_subset hq) (hp.ends_subset hr) he
  | case3 base p p' ps ih =>
    exact ih h.tail

/-- No epsilon transition leads on from the last plan. -/
theorem mem_joins_iff (h : a.Arranged base plans) :
    (id, next) ∈ joins base plans ↔
      base ≤ id.toNat ∧ ∃ s, a.state? id = some s ∧ ⟨.epsilon, next⟩ ∈ s.transitions := by
  fun_induction joins base plans with
  | case1 base =>
    refine iff_of_false List.not_mem_nil ?_
    rintro ⟨hb, s, hs, -⟩
    exact Nat.not_lt.2 hb (h.lt_of_nil (has_of_state? hs))
  | case2 base p =>
    refine iff_of_false List.not_mem_nil ?_
    rintro ⟨hb, s, hs, ht⟩
    rcases h.place_or_le hb with ⟨q, hq, rfl⟩ | hb
    · obtain rfl := Option.some.inj (hs.symm.trans (h.state?_stateId hq))
      obtain ⟨-, p', ps', hn, -⟩ := (Plan.epsilon_mem_transitions_state h.head hq).1 ht
      exact List.cons_ne_nil p' ps' hn.symm
    · exact Nat.not_lt.2 hb (h.tail.lt_of_nil (has_of_state? hs))
  | case3 base p p' ps ih =>
    rw [List.mem_append, ih h.tail]
    constructor
    · rintro (hj | ⟨hb, later⟩)
      · obtain ⟨q, he, heq⟩ := List.mem_map.1 hj
        obtain ⟨rfl, rfl⟩ := Prod.mk.inj heq
        have hq := h.head_tidy.ends_subset he
        exact ⟨h.le_stateId hq, _, h.state?_stateId hq,
          (Plan.epsilon_mem_transitions_state h.head hq).2 ⟨he, p', ps, rfl, rfl⟩⟩
      · exact ⟨Nat.le_trans (Nat.le_add_right ..) hb, later⟩
    · rintro ⟨hb, s, hs, ht⟩
      rcases h.place_or_le hb with ⟨q, hq, rfl⟩ | hb
      · obtain rfl := Option.some.inj (hs.symm.trans (h.state?_stateId hq))
        obtain ⟨he, _, _, ⟨⟩, rfl⟩ := (Plan.epsilon_mem_transitions_state h.head hq).1 ht
        exact .inl (List.mem_map.2 ⟨q, he, rfl⟩)
      · exact .inr ⟨hb, s, hs, ht⟩

/-- What holds of each place holds of each state. The lists of states are settled plan by plan. -/
theorem wellFormed (h : a.Arranged 0 (p :: ps)) (hs : a.start = p.stateId 0 .start)
    (hf : a.finals = Blueprint.finals 0 (p :: ps)) :
    a.WellFormed (joins 0 (p :: ps)) := by
  have finals_iff (id : StateId) : id ∈ a.finals ↔ a.isFinal id = true := by
    rw [hf, h.mem_finals_iff, and_iff_right (Nat.zero_le _)]
  have place {id : StateId} (hid : a.has id = true) := h.exists_place (Nat.zero_le _) hid
  have in_place {s : State} (hm : s ∈ a.states) :
      ∃ first r rs, a.Arranged first (r :: rs) ∧ ∃ q ∈ r.places,
        s = r.state first (exitTo (first + r.size) rs) q := by
    obtain ⟨id, hid⟩ := exists_state?_of_mem h.small hm
    obtain ⟨first, r, rs, laid, q, hq, rfl⟩ := place (has_of_state? hid)
    exact ⟨first, r, rs, laid, q, hq, Option.some.inj (hid.symm.trans (laid.state?_stateId hq))⟩
  constructor
  case start =>
    rw [hs]
    exact h.has_stateId h.head.start_mem
  case finals => exact fun id hid => has_of_isFinal ((finals_iff id).1 hid)
  case targets =>
    intro s hm t ht
    obtain ⟨first, r, rs, laid, q, hq, rfl⟩ := in_place hm
    exact laid.has_target hq ht
  case guards_nodup =>
    intro s hm
    obtain ⟨first, r, rs, laid, q, hq, rfl⟩ := in_place hm
    exact Plan.guards_state_nodup laid.head laid.head_tidy hq rs
  case mem_finals_iff => exact finals_iff
  case finals_nodup =>
    rw [hf]
    exact h.finals_nodup
  case start_not_final =>
    rw [finals_iff, hs, h.isFinal_stateId h.head.start_mem]
    exact fun he => h.head.start_not_mem_ends he.1
  case epsilon_iff =>
    intro id next
    rw [h.mem_joins_iff, and_iff_right (Nat.zero_le _)]
  case hops =>
    intro id hid
    obtain ⟨first, r, rs, laid, q, hq, rfl⟩ := place hid
    exact laid.hops hq
  case reachable =>
    intro id hid
    refine h.reachable (fun r hr => ?_) (Nat.zero_le _) hid
    obtain rfl := Option.some.inj hr
    rw [← hs]
    exact .start

end Arranged
end Automaton

namespace Phase

variable {p : Phase}

theorem finals_plans (h : p.Legal) : finals 0 p.plans = finals 0 p.groups :=
  plans_congr h (by decide) (by decide)

/-- An unsized phase has one group only, which is joined to nothing. -/
theorem joins_plans (h : p.Legal) : joins 0 p.plans = joins 0 p.groups := plans_congr h rfl rfl

end Phase

namespace Automaton

variable {p : Phase}

theorem wellFormed_compile (h : p.Legal) (small : (compile p).size < UInt32.size) :
    (compile p).WellFormed (joins 0 p.plans) := by
  have laid : (compile p).Arranged 0 p.groups := ⟨compile_laid h small, Phase.groups_tidy h⟩
  have hf : (compile p).finals = Blueprint.finals 0 p.groups := Phase.finals_plans h
  rw [Phase.joins_plans h]
  obtain ⟨q, qs, hg⟩ := Phase.exists_groups_eq_cons h
  rw [hg] at laid hf ⊢
  refine laid.wellFormed ?_ hf
  rw [Plan.stateId, laid.head.index_start]
  rfl

end Automaton
end Meld
