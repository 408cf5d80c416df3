import Mathlib.Algebra.GroupWithZero.Nat
import Meld.Proofs.Laid

namespace Meld

open Blueprint

namespace Automaton

def takesFrom (a : Automaton) (id : StateId) (cards : List Card) : Bool := (a.run? id cards).isSome

/-- The state of a place such that `count` cards are missing until all groups are complete. -/
def Awaits (a : Automaton) (id : StateId) (count : Nat) : Prop :=
  ∃ base p ps q, a.Laid base (p :: ps) ∧ q ∈ p.places ∧ p.stateId base q = id ∧
    p.missing q + (ps.map Plan.need).sum = count

variable {a : Automaton} {id next : StateId} {count : Nat}

theorem takesFrom_cons (a : Automaton) (id : StateId) (card : Card) (cards : List Card) :
    a.takesFrom id (card :: cards) = true ↔
      ∃ next, a.step? id card = some next ∧ a.takesFrom next cards = true := by
  simp only [takesFrom, run?, Option.isSome_bind, Option.any_eq_true]

theorem takesFrom_of_append {xs ys : List Card} (h : a.takesFrom id (xs ++ ys) = true) :
    a.takesFrom id xs = true := by
  rw [takesFrom, run?_append, Option.isSome_bind, Option.any_eq_true] at h
  obtain ⟨next, hr, -⟩ := h
  rw [takesFrom, hr, Option.isSome_some]

theorem Laid.sum_need_eq_zero {base : Nat} {plans : List Plan} (h : a.Laid base plans) :
    (plans.map Plan.need).sum = 0 ↔ plans = [] := by
  cases plans with
  | nil => simp
  | cons p ps =>
    have hp := h.head.need_pos
    simp only [List.map_cons, List.sum_cons, reduceCtorEq, iff_false]
    omega

namespace Awaits

theorem isFinal_iff (h : a.Awaits id count) : a.isFinal id = true ↔ count = 0 := by
  obtain ⟨base, p, ps, q, laid, hq, rfl, rfl⟩ := h
  rw [laid.isFinal_stateId hq, laid.head.mem_ends q hq, Nat.add_eq_zero_iff,
    laid.tail.sum_need_eq_zero]

/-- Each card that is taken brings completion one card closer. -/
theorem step (h : a.Awaits id count) {card : Card} (hs : a.step? id card = some next) :
    a.Awaits next (count - 1) := by
  obtain ⟨base, p, ps, q, laid, hq, rfl, rfl⟩ := h
  have missing := laid.head.mem_ends q hq
  rcases p.within_or_joins q ps with hn | ⟨he, p', ps, rfl⟩
  · obtain ⟨r, hr, rfl⟩ := (laid.step?_stateId hq hn card next).1 hs
    refine ⟨base, p, ps, r, laid, laid.head.step_mem hq hr, rfl, ?_⟩
    rw [laid.head.missing_step hq hr]
    rcases hn with hn | rfl
    · have hm := mt missing.2 hn
      omega
    · simp only [List.map_nil, List.sum_nil, Nat.add_zero]
  · -- the card goes to the next group, whose start is not complete yet
    have start := laid.tail.head.start_mem
    rw [laid.step?_of_mem_ends hq he] at hs
    obtain ⟨r, hr, rfl⟩ :=
      (laid.tail.step?_stateId start (.inl laid.tail.head.start_not_mem_ends) card next).1 hs
    refine ⟨base + p.size, p', ps, r, laid.tail, laid.tail.head.step_mem start hr, rfl, ?_⟩
    have hm := missing.1 he
    have hp := laid.tail.head.need_pos
    have ht : p'.missing .start = p'.need := rfl
    rw [laid.tail.head.missing_step start hr]
    simp only [List.map_cons, List.sum_cons]
    omega

theorem run (h : a.Awaits id count) {cards : List Card} (hr : a.run? id cards = some next) :
    a.Awaits next (count - cards.length) := by
  induction cards generalizing id count with
  | nil =>
    obtain rfl := Option.some.inj hr
    exact h
  | cons card cards ih =>
    obtain ⟨mid, hs, hr⟩ := Option.bind_eq_some_iff.1 hr
    have hm := ih (h.step hs) hr
    rwa [Nat.sub_sub, Nat.add_comm] at hm

theorem run?_any_isFinal (h : a.Awaits id count) (cards : List Card) :
    (a.run? id cards).any a.isFinal = true ↔
      a.takesFrom id cards = true ∧ count ≤ cards.length := by
  simp only [takesFrom, Option.any_eq_true, Option.isSome_iff_exists, ← exists_and_right]
  apply exists_congr
  intro next
  apply and_congr_right
  intro hr
  rw [(h.run hr).isFinal_iff, Nat.sub_eq_zero_iff_le]

theorem acceptsSomePrefixFrom_iff (h : a.Awaits id count) (cards : List Card) :
    a.acceptsSomePrefixFrom id cards = true ↔
      count ≤ cards.length ∧ a.takesFrom id (cards.take count) = true := by
  induction cards generalizing id count with
  | nil => simp [acceptsSomePrefixFrom, h.isFinal_iff, takesFrom, run?]
  | cons card cards ih =>
    rw [acceptsSomePrefixFrom, Bool.or_eq_true, h.isFinal_iff, Option.any_eq_true]
    cases count with
    | zero => simp [takesFrom, run?]
    | succ count =>
      simp only [Nat.succ_ne_zero, false_or, List.take_succ_cons, takesFrom_cons,
        List.length_cons, Nat.add_le_add_iff_right, ← exists_and_left]
      apply exists_congr
      intro next
      rw [and_left_comm]
      apply and_congr_right
      intro hs
      exact ih (h.step hs)

end Awaits

namespace Laid

variable {base : Nat} {p p' : Plan} {ps : List Plan} {q : Place}

theorem awaits_start (h : a.Laid base (p :: ps)) :
    a.Awaits (p.stateId base .start) ((p :: ps).map Plan.need).sum :=
  ⟨base, p, ps, .start, h, h.head.start_mem, rfl, rfl⟩

theorem takesFrom_last (h : a.Laid base [p]) (hq : q ∈ p.places) (cards : List Card) :
    a.takesFrom (p.stateId base q) cards = true ↔ p.Takes q cards := by
  induction cards generalizing q with
  | nil => simp [takesFrom, run?, Plan.Takes]
  | cons card cards ih =>
    rw [takesFrom_cons, Plan.Takes]
    constructor
    · rintro ⟨next, hs, ht⟩
      obtain ⟨r, hr, rfl⟩ := (h.step?_stateId hq (.inr rfl) card next).1 hs
      exact ⟨r, hr, (ih (h.head.step_mem hq hr)).1 ht⟩
    · rintro ⟨r, hr, ht⟩
      exact ⟨_, (h.step?_stateId hq (.inr rfl) card _).2 ⟨r, hr, rfl⟩,
        (ih (h.head.step_mem hq hr)).2 ht⟩

/-- A group that is not the last one takes just the cards that it needs. -/
theorem takesFrom_of_cons (h : a.Laid base (p :: p' :: ps)) (hq : q ∈ p.places)
    (cards : List Card) :
    a.takesFrom (p.stateId base q) cards = true ↔
      p.Takes q (cards.take (p.missing q)) ∧
        a.takesFrom (p'.stateId (base + p.size) .start) (cards.drop (p.missing q)) = true := by
  induction cards generalizing q with
  | nil => simp [takesFrom, run?, Plan.Takes]
  | cons card cards ih =>
    by_cases he : q ∈ p.ends
    · -- nothing is missing, and the next group takes the card
      rw [(h.head.mem_ends q hq).1 he, List.take_zero, List.drop_zero, takesFrom_cons,
        takesFrom_cons, h.step?_of_mem_ends hq he]
      simp only [Plan.Takes, true_and]
    · obtain ⟨m, hm⟩ := Nat.exists_eq_succ_of_ne_zero (mt (h.head.mem_ends q hq).2 he)
      have missing {r : Place} (hr : p.Step q card r) : p.missing r = m := by
        rw [h.head.missing_step hq hr, hm, Nat.succ_sub_one]
      rw [hm, List.take_succ_cons, List.drop_succ_cons, takesFrom_cons, Plan.Takes]
      constructor
      · rintro ⟨next, hs, ht⟩
        obtain ⟨r, hr, rfl⟩ := (h.step?_stateId hq (.inl he) card next).1 hs
        have hi := (ih (h.head.step_mem hq hr)).1 ht
        rw [missing hr] at hi
        exact ⟨⟨r, hr, hi.1⟩, hi.2⟩
      · rintro ⟨⟨r, hr, hi⟩, ht⟩
        refine ⟨_, (h.step?_stateId hq (.inl he) card _).2 ⟨r, hr, rfl⟩, ?_⟩
        rw [ih (h.head.step_mem hq hr), missing hr]
        exact ⟨hi, ht⟩

end Laid
end Automaton
end Meld
