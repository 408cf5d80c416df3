import Meld.Proofs.Compiled

namespace Meld

open Blueprint

theorem Shape.Groups.skip_not_mem {shape : Shape} {cards : List Card} (h : shape.Groups cards) :
    Card.skip ∉ cards := by
  intro hm
  have hw : Card.skip ≠ Card.wild := by decide
  cases shape with
  | set =>
    obtain ⟨step, hc⟩ := h
    exact absurd ((hc _ hm).resolve_left hw) nofun
  | color =>
    obtain ⟨k, hk, hc⟩ := h
    have hs : Color.skip ∉ Color.real := by decide
    obtain rfl := (hc _ hm).resolve_left hw
    exact hs hk
  | run =>
    obtain ⟨below, -, hc⟩ := h
    obtain ⟨i, hi, he⟩ := List.getElem_of_mem hm
    have hv := hc i hi
    rw [he] at hv
    exact absurd (hv.resolve_left hw) nofun

theorem Phase.Splits.skip_not_mem {components : List Component} {cards : List Card}
    (h : Splits components cards) : Card.skip ∉ cards := by
  induction components generalizing cards with
  | nil => exact h.elim
  | cons c cs ih =>
    cases cs with
    | nil => exact h.2.2.skip_not_mem
    | cons d ds =>
      obtain ⟨-, hg, hs⟩ := h
      rw [← List.take_append_drop c.size.toNat cards, List.mem_append, not_or]
      exact ⟨hg.skip_not_mem, ih hs⟩

theorem Phase.IsMetBy.skip_not_mem {p : Phase} {cards : List Card} (h : p.IsMetBy cards) :
    Card.skip ∉ cards := by
  cases p with
  | unsized shape => exact Shape.Groups.skip_not_mem h.2
  | sized components => exact Splits.skip_not_mem h

namespace Automaton

theorem Laid.splits_iff {a : Automaton} {c : Component} {cs : List Component} {base : Nat}
    (h : a.Laid base ((c :: cs).map (·.track.plan))) (hc : ∀ d ∈ c :: cs, d.InRange)
    (cards : List Card) :
    a.takesFrom (c.track.plan.stateId base .start) cards = true ∧
      ((c :: cs).map (·.size.toNat)).sum ≤ cards.length ↔ Phase.Splits (c :: cs) cards := by
  induction cs generalizing c base cards with
  | nil =>
    simp only [List.map_cons, List.map_nil, List.sum_cons, List.sum_nil, Nat.add_zero] at h ⊢
    rw [h.takesFrom_last h.head.start_mem, and_comm]
    exact and_congr_right (Component.takes_iff (hc c List.mem_cons_self))
  | cons d ds ih =>
    have hr := hc c List.mem_cons_self
    have missing : c.track.plan.missing .start = c.size.toNat := by
      rw [Track.missing_plan (Component.track_regular hr), c.track_size]
      rfl
    simp only [List.map_cons, List.sum_cons] at h ih ⊢
    rw [h.takesFrom_of_cons h.head.start_mem, missing, Phase.Splits,
      ← ih h.tail (fun e he => hc e (List.mem_cons_of_mem c he)), List.length_drop]
    -- the first block has the size that makes it a whole group
    have block (hl : c.size.toNat ≤ cards.length) :
        c.track.plan.Takes .start (cards.take c.size.toNat) ↔
          c.shape.Groups (cards.take c.size.toNat) := by
      have he := List.length_take_of_le hl
      rw [Component.takes_iff hr (Nat.le_of_eq he.symm)]
      exact and_iff_right fun _ => he
    constructor
    · rintro ⟨⟨ht, hn⟩, hl⟩
      have hle := Nat.le_of_add_right_le hl
      exact ⟨hle, (block hle).1 ht, hn, by omega⟩
    · rintro ⟨hle, hg, hn, hl⟩
      exact ⟨⟨(block hle).2 hg, hn⟩, by omega⟩

variable {p : Phase}

/-- What a compiled phase takes is enough for it just when it meets the phase. -/
theorem takes_and_minCards_le_iff (h : p.Legal) (small : (compile p).size < UInt32.size)
    (cards : List Card) :
    (compile p).takes cards = true ∧ p.minCards ≤ cards.length ↔ p.IsMetBy cards := by
  have laid := compile_laid h small
  have first {q : Plan} (hg : p.groups = [q]) :
      (compile p).takes cards = true ↔ q.Takes .start cards := by
    rw [hg] at laid
    have ht := laid.takesFrom_last laid.head.start_mem cards
    rw [Plan.stateId, laid.head.index_start] at ht
    exact ht
  have open_iff {shape : Shape} {q : Plan} (hp : p = .unsized shape) (hg : p.groups = [q])
      (ht : q.Takes .start cards ↔ shape.Groups cards) :
      (compile p).takes cards = true ∧ p.minCards ≤ cards.length ↔ p.IsMetBy cards := by
    rw [first hg, ht, and_comm, hp]
    apply and_congr_left'
    exact List.length_pos_iff
  unfold Phase.groups at laid
  split at laid
  · refine open_iff rfl rfl ?_
    rw [Track.takes_group rankKeys_sharp (by decide) Nat.zero_lt_one, Shape.groups_set_iff]
  · refine open_iff rfl rfl ?_
    rw [Track.takes_group colorKeys_sharp (by decide) Nat.zero_lt_one, Shape.groups_color_iff]
  · exact open_iff rfl rfl (AnyRun.takes_start cards)
  · next components =>
    cases components with
    | nil => exact absurd rfl h.1
    | cons c cs =>
      have hs := laid.splits_iff h.2 cards
      rw [Plan.stateId, Track.plan_orderly (Component.track_regular
        (h.2 c List.mem_cons_self)) |>.index_start] at hs
      exact hs

theorem accepts_iff_takes (h : p.Legal) (small : (compile p).size < UInt32.size)
    (cards : List Card) : (compile p).accepts cards = true ↔
      (compile p).takes cards = true ∧ p.minCards ≤ cards.length :=
  (compile_awaits h small).run?_any_isFinal cards

theorem accepts_iff_isMetBy (h : p.Legal) (small : (compile p).size < UInt32.size)
    (cards : List Card) : (compile p).accepts cards = true ↔ p.IsMetBy cards :=
  (accepts_iff_takes h small cards).trans (takes_and_minCards_le_iff h small cards)

/-- A compiled phase accepts just the cards that meet it, and no skip card is ever among them. -/
theorem accepts_compile_iff {text : String} (parsed : Phase.parse text = .ok p)
    (small : (compile p).size < UInt32.size) (cards : List Card) :
    ((compile p).accepts cards = true ↔ p.IsMetBy cards) ∧
      (Card.skip ∈ cards → (compile p).accepts cards = false) := by
  have h := accepts_iff_isMetBy (Phase.legal_of_parse parsed) small cards
  refine ⟨h, fun hs => ?_⟩
  rw [Bool.eq_false_iff, Ne, h]
  exact fun hm => hm.skip_not_mem hs

/-- A wild card may end one group and the next begin. -/
theorem accepts_compile_set_run :
    Phase.parse "S2+R03" = .ok (.sized [⟨.set, 2⟩, ⟨.run, 3⟩]) ∧
    (compile (.sized [⟨.set, 2⟩, ⟨.run, 3⟩])).size < UInt32.size ∧
    Phase.IsMetBy (.sized [⟨.set, 2⟩, ⟨.run, 3⟩])
      [⟨.red, .number 4, by decide, by decide⟩, Card.wild, Card.wild,
        ⟨.blue, .number 10, by decide, by decide⟩, Card.wild] ∧
    (compile (.sized [⟨.set, 2⟩, ⟨.run, 3⟩])).accepts [Card.wild, Card.skip] = false := by
  have parsed : Phase.parse "S2+R03" = .ok (.sized [⟨.set, 2⟩, ⟨.run, 3⟩]) := by decide
  have small : (compile (.sized [⟨.set, 2⟩, ⟨.run, 3⟩])).size < UInt32.size := by decide
  refine ⟨parsed, small, ?_, ?_⟩
  · exact (accepts_compile_iff parsed small _).1.1 (by decide)
  · exact (accepts_compile_iff parsed small _).2 (by decide)

/-- The three ways of matching differ only in how they count the cards that a phase needs. -/
theorem matching_iff_takes {text : String} (parsed : Phase.parse text = .ok p)
    (small : (compile p).size < UInt32.size) (cards : List Card) :
    ∃ n, p.cardsNeeded = .ok n ∧
      ((compile p).accepts cards = true ↔
        (compile p).takes cards = true ∧ n.toNat ≤ cards.length) ∧
      ((compile p).acceptsSomePrefix cards = true ↔ n.toNat ≤ cards.length ∧
        (compile p).takes (cards.take n.toNat) = true) := by
  have h := Phase.legal_of_parse parsed
  obtain ⟨n, needed, hn⟩ := exists_cardsNeeded_of_small h small
  refine ⟨n, needed, ?_⟩
  rw [hn]
  exact ⟨accepts_iff_takes h small cards,
    (compile_awaits h small).acceptsSomePrefixFrom_iff cards⟩

theorem matching_run_color :
    Phase.parse "R2+C1" = .ok (.sized [⟨.run, 2⟩, ⟨.color, 1⟩]) ∧
    (compile (.sized [⟨.run, 2⟩, ⟨.color, 1⟩])).size < UInt32.size ∧
    (compile (.sized [⟨.run, 2⟩, ⟨.color, 1⟩])).takes
      [⟨.red, .number 4, by decide, by decide⟩, Card.wild, Card.wild] = true ∧
    (compile (.sized [⟨.run, 2⟩, ⟨.color, 1⟩])).acceptsSomePrefix
      [⟨.red, .number 4, by decide, by decide⟩, Card.wild, Card.wild, Card.skip] = true := by
  have parsed : Phase.parse "R2+C1" = .ok (.sized [⟨.run, 2⟩, ⟨.color, 1⟩]) := by decide
  have small : (compile (.sized [⟨.run, 2⟩, ⟨.color, 1⟩])).size < UInt32.size := by decide
  obtain ⟨_, -, accepted_iff, -⟩ := matching_iff_takes parsed small
    [⟨.red, .number 4, by decide, by decide⟩, Card.wild, Card.wild]
  have taken := (accepted_iff.1 (by decide)).1
  obtain ⟨n, needed, -, prefix_iff⟩ := matching_iff_takes parsed small
    [⟨.red, .number 4, by decide, by decide⟩, Card.wild, Card.wild, Card.skip]
  obtain rfl : 3 = n := Except.ok.inj needed
  exact ⟨parsed, small, taken, prefix_iff.2 ⟨by decide, taken⟩⟩

end Automaton
end Meld
