import Meld.Proofs.Acceptance

namespace Meld

open Blueprint

namespace Automaton

variable {a : Automaton} {id : StateId} {count : Nat} {p : Phase}

namespace Awaits

/-- A state where cards are missing takes a wild card. -/
theorem wild_step (h : a.Awaits id count) (hc : 0 < count) :
    ∃ next, a.step? id Card.wild = some next := by
  obtain ⟨base, p, ps, q, laid, hq, rfl, rfl⟩ := h
  have missing := laid.head.mem_ends q hq
  by_cases he : q ∈ p.ends
  · cases ps with
    | nil =>
      rw [missing.1 he] at hc
      exact absurd hc (Nat.lt_irrefl 0)
    | cons p' ps =>
      -- the group is complete, and the next one begins with the card
      have start := laid.tail.head.start_mem
      have open_start := laid.tail.head.start_not_mem_ends
      obtain ⟨r, hr⟩ := laid.tail.head.wild_step .start start open_start
      rw [laid.step?_of_mem_ends hq he]
      exact ⟨_, (laid.tail.step?_stateId start (.inl open_start) Card.wild _).2 ⟨r, hr, rfl⟩⟩
  · obtain ⟨r, hr⟩ := laid.head.wild_step q hq he
    exact ⟨_, (laid.step?_stateId hq (.inl he) Card.wild _).2 ⟨r, hr, rfl⟩⟩

theorem takesFrom_wilds (h : a.Awaits id count) :
    a.takesFrom id (List.replicate count Card.wild) = true := by
  induction count generalizing id with
  | zero => rfl
  | succ count ih =>
    obtain ⟨next, hs⟩ := h.wild_step (Nat.zero_lt_succ count)
    rw [List.replicate_succ, takesFrom_cons]
    exact ⟨next, hs, ih (h.step hs)⟩

/-- Wild cards stand in for all that is missing after the cards that are taken. -/
theorem takesFrom_append_wilds (h : a.Awaits id count) (cards : List Card) :
    a.takesFrom id (cards ++ List.replicate (count - cards.length) Card.wild) = true ↔
      a.takesFrom id cards = true := by
  constructor
  · exact takesFrom_of_append
  · intro ht
    obtain ⟨next, hr⟩ := Option.isSome_iff_exists.1 ht
    rw [takesFrom, run?_append, hr, Option.bind_some]
    exact (h.run hr).takesFrom_wilds

end Awaits

theorem accepts_append_wilds_iff (h : p.Legal) (small : (compile p).size < UInt32.size)
    (cards : List Card) :
    (compile p).accepts (cards ++ List.replicate (p.minCards - cards.length) Card.wild) = true ↔
      (compile p).takes cards = true := by
  have hl : p.minCards ≤
      (cards ++ List.replicate (p.minCards - cards.length) Card.wild).length := by
    rw [List.length_append, List.length_replicate]
    omega
  rw [accepts_iff_takes h small, and_iff_left hl]
  exact (compile_awaits h small).takesFrom_append_wilds cards

/-- There are no dead ends: as many wild cards as are missing complete the cards that are taken,
and nothing completes the others. -/
theorem takes_iff_completes {text : String} (parsed : Phase.parse text = .ok p)
    (small : (compile p).size < UInt32.size) (cards : List Card) :
    (∃ n, p.cardsNeeded = .ok n ∧ ((compile p).takes cards = true ↔ (compile p).accepts
      (cards ++ List.replicate (n.toNat - cards.length) Card.wild) = true)) ∧
    ((compile p).takes cards = true → ∃ more, (compile p).accepts (cards ++ more) = true) ∧
    ((compile p).takes cards = false → ∀ more, (compile p).accepts (cards ++ more) = false) := by
  have h := Phase.legal_of_parse parsed
  have filled := accepts_append_wilds_iff h small cards
  obtain ⟨n, needed, hn⟩ := exists_cardsNeeded_of_small h small
  refine ⟨⟨n, needed, ?_⟩, fun ht => ⟨_, filled.2 ht⟩, fun ht more => ?_⟩
  · rw [hn, filled]
  · rw [Bool.eq_false_iff] at ht ⊢
    intro ha
    exact ht (takesFrom_of_append ((accepts_iff_takes h small _).1 ha).1)

/-- Two wild cards complete the color and the run that has begun, and a color that is broken is
lost for good. -/
theorem completes_color_run :
    Phase.parse "C2+R3" = .ok (.sized [⟨.color, 2⟩, ⟨.run, 3⟩]) ∧
    (compile (.sized [⟨.color, 2⟩, ⟨.run, 3⟩])).size < UInt32.size ∧
    (compile (.sized [⟨.color, 2⟩, ⟨.run, 3⟩])).accepts
      ([Card.wild, ⟨.red, .number 4, by decide, by decide⟩,
        ⟨.blue, .number 9, by decide, by decide⟩] ++ List.replicate 2 Card.wild) = true ∧
    ∀ more, (compile (.sized [⟨.color, 2⟩, ⟨.run, 3⟩])).accepts
      ([⟨.red, .number 4, by decide, by decide⟩, ⟨.blue, .number 4, by decide, by decide⟩]
        ++ more) = false := by
  have parsed : Phase.parse "C2+R3" = .ok (.sized [⟨.color, 2⟩, ⟨.run, 3⟩]) := by decide
  have small : (compile (.sized [⟨.color, 2⟩, ⟨.run, 3⟩])).size < UInt32.size := by decide
  refine ⟨parsed, small, ?_, ?_⟩
  · obtain ⟨⟨n, needed, taken_iff⟩, -⟩ := takes_iff_completes parsed small
      [Card.wild, ⟨.red, .number 4, by decide, by decide⟩,
        ⟨.blue, .number 9, by decide, by decide⟩]
    obtain rfl : 5 = n := Except.ok.inj needed
    exact taken_iff.1 (by decide)
  · exact (takes_iff_completes parsed small _).2.2 (by decide)

end Automaton
end Meld
