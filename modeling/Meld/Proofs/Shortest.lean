import Meld.Proofs.Acceptance
import Meld.Proofs.Pick

namespace Meld.Automaton

variable {p : Phase} {hand : List Card} {l : List Nat}

theorem minCards_pos (h : p.Legal) : 0 < p.minCards := by
  obtain ⟨q, qs, hg⟩ := Phase.exists_groups_eq_cons h
  have hq := (Phase.groups_orderly h q (hg ▸ List.mem_cons_self)).need_pos
  have hs := Phase.sum_need_groups h
  rw [hg, List.map_cons, List.sum_cons] at hs
  omega

/-- The cards picked first are no more than the phase needs, since fewer of them would do. -/
theorem PicksFirst.length_eq (h : p.Legal) (small : (compile p).size < UInt32.size)
    (hl : (compile p).PicksFirst hand l) : l.length = p.minCards := by
  obtain ⟨ht, hle⟩ := (accepts_iff_takes h small _).1 hl.1.accepted
  rw [length_cardsAt hl.1.within] at hle
  refine Nat.le_antisymm (Nat.le_of_not_lt fun hlt => ?_) hle
  have within : ∀ i ∈ l.take p.minCards, i < hand.length :=
    fun i hi => hl.1.within i (List.mem_of_mem_take hi)
  have hlen : (l.take p.minCards).length = p.minCards := List.length_take_of_le hle
  have shorter : (compile p).Picks hand (l.take p.minCards) := by
    refine ⟨?_, hl.1.rising.sublist (List.take_sublist ..), within, ?_⟩
    · rw [← List.length_pos_iff, hlen]
      exact minCards_pos h
    · rw [accepts_iff_takes h small, length_cardsAt within, hlen]
      rw [← List.take_append_drop p.minCards l, cardsAt_append] at ht
      exact ⟨takesFrom_of_append ht, Nat.le_refl _⟩
  -- fewer positions would have come first
  have hs : Earlier (l.take p.minCards) l := List.Shortlex.of_length_lt (hlen.trans_lt hlt)
  rcases hl.2 _ shorter with he | he
  · rw [he] at hlen
    omega
  · exact hs.asymm he

theorem exists_pick?_iff (h : p.Legal) (small : (compile p).size < UInt32.size) :
    (∃ l, (compile p).pick? hand = .ok (some l)) ↔
      ∃ cards, cards.Sublist (hand.take handLimit) ∧ (compile p).accepts cards = true := by
  constructor
  · rintro ⟨l, hl⟩
    have hp := (pick?_eq_some_iff.1 hl).2.1
    obtain ⟨cards, hs, -, ha⟩ := exists_picks_iff.1 ⟨l, hp⟩
    exact ⟨cards, hs, ha⟩
  · rintro ⟨cards, hs, ha⟩
    have hle := ((accepts_iff_takes h small cards).1 ha).2
    have hne : cards ≠ [] := List.length_pos_iff.1 (Nat.lt_of_lt_of_le (minCards_pos h) hle)
    obtain ⟨l, hl⟩ := exists_picks_iff.2 ⟨cards, hs, hne, ha⟩
    obtain ⟨m, hm⟩ := exists_picksFirst hl
    exact ⟨m, pick?_eq_some_iff.2 ⟨hle.trans hs.length_le, hm⟩⟩

theorem exists_pick?_of_small (h : p.Legal) (small : (compile p).size < UInt32.size)
    (hand : List Card) : ∃ found, (compile p).pick? hand = .ok found := by
  cases hp : (compile p).pick? hand with
  | ok found => exact ⟨found, rfl⟩
  | error e =>
    exact absurd (pick?_eq_error_iff.1 hp) (Nat.not_le_of_lt (minCards_lt_of_small h small))

theorem canPick_compile_iff (h : p.Legal) (small : (compile p).size < UInt32.size) :
    (compile p).canPick hand = .ok true ↔
      ∃ cards, cards.Sublist (hand.take handLimit) ∧ (compile p).accepts cards = true := by
  rw [canPick_eq_true_iff, exists_pick?_iff h small]

/-- A search for cards of a compiled phase always has an answer. -/
theorem exists_canPick_iff (h : p.Legal) (small : (compile p).size < UInt32.size)
    (hand : List Card) : ∃ found, (compile p).canPick hand = .ok found ∧ (found = true ↔
      ∃ cards, cards.Sublist (hand.take handLimit) ∧ (compile p).accepts cards = true) := by
  obtain ⟨found, picked⟩ := exists_pick?_of_small h small hand
  have answer : (compile p).canPick hand = .ok found.isSome := by
    rw [canPick, picked]
    rfl
  refine ⟨_, answer, ?_⟩
  rw [← canPick_compile_iff h small, answer, Except.ok.injEq]

/-- No answer is lost where a search is not made for want of cards, and what is picked is always of
the size that the phase needs. -/
theorem pick?_compile_length {text : String} (parsed : Phase.parse text = .ok p)
    (small : (compile p).size < UInt32.size) (hand : List Card) :
    ∃ n found, p.cardsNeeded = .ok n ∧ (compile p).pick? hand = .ok found ∧
      (found.isSome = true ↔
        ∃ cards, cards.Sublist (hand.take handLimit) ∧ (compile p).accepts cards = true) ∧
      (∀ l, found = some l → l.length = n.toNat) ∧
      (handLimit < n.toNat → found = none) := by
  have h := Phase.legal_of_parse parsed
  obtain ⟨n, needed, hn⟩ := exists_cardsNeeded_of_small h small
  obtain ⟨found, picked⟩ := exists_pick?_of_small h small hand
  refine ⟨n, found, needed, picked, ?_, fun l hl => ?_, fun hlt => ?_⟩
  · rw [← exists_pick?_iff h small, picked, Option.isSome_iff_exists]
    simp only [Except.ok.injEq]
  · rw [hn]
    exact (pick?_eq_some_iff.1 (hl ▸ picked)).2.length_eq h small
  · have few : (hand.take handLimit).length < (compile p).phase.minCards :=
      Nat.lt_of_le_of_lt (List.length_take_le ..) (hn ▸ hlt)
    have none := pick?_eq_none_iff.2 ⟨minCards_lt_of_small h small, .inl few⟩
    exact Except.ok.inj (picked.symm.trans none)

/-- A skip card in the middle of a hand is passed over. -/
theorem pick?_compile_run_set :
    Phase.parse "R2+S1" = .ok (.sized [⟨.run, 2⟩, ⟨.set, 1⟩]) ∧
    (compile (.sized [⟨.run, 2⟩, ⟨.set, 1⟩])).size < UInt32.size ∧
    ∃ l, l.length = 3 ∧ (compile (.sized [⟨.run, 2⟩, ⟨.set, 1⟩])).pick? [Card.wild, Card.skip,
      ⟨.red, .number 4, by decide, by decide⟩, Card.wild] = .ok (some l) := by
  have parsed : Phase.parse "R2+S1" = .ok (.sized [⟨.run, 2⟩, ⟨.set, 1⟩]) := by decide
  have small : (compile (.sized [⟨.run, 2⟩, ⟨.set, 1⟩])).size < UInt32.size := by decide
  obtain ⟨n, found, needed, picked, some_iff, length_eq, -⟩ := pick?_compile_length parsed small
    [Card.wild, Card.skip, ⟨.red, .number 4, by decide, by decide⟩, Card.wild]
  obtain rfl : 3 = n := Except.ok.inj needed
  have some := some_iff.2 ⟨[Card.wild, ⟨.red, .number 4, by decide, by decide⟩, Card.wild],
    by decide, by decide⟩
  obtain ⟨l, rfl⟩ := Option.isSome_iff_exists.1 some
  exact ⟨parsed, small, l, length_eq l rfl, picked⟩

end Meld.Automaton
