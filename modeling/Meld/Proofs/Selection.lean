import Mathlib.Data.List.Shortlex
import Mathlib.Data.List.Sort
import Meld.Automaton.Search
import Meld.Automaton.Walk

namespace Meld

/-- Fewer positions come first, and of equally many the lexicographically smaller ones. -/
abbrev Earlier (l m : List Nat) : Prop := List.Shortlex (· < ·) l m

namespace Earlier

variable {l m : List Nat}

theorem asymm (h : Earlier l m) : ¬Earlier m l := Std.Asymm.asymm l m h

theorem eq_or_earlier (h : ¬Earlier m l) : m = l ∨ Earlier l m := by
  by_cases h' : Earlier l m
  · exact .inr h'
  · exact .inl (Std.Trichotomous.trichotomous m l h h')

theorem of_prefix (h : l <+: m) : m = l ∨ Earlier l m := by
  obtain ⟨r, rfl⟩ := h
  cases r with
  | nil => exact .inl (List.append_nil l)
  | cons i r => exact .inr (List.Shortlex.of_length_lt (by simp))

theorem append_lex (h : List.Lex (· < ·) l m) (hl : l.length = m.length) (u v : List Nat) :
    List.Lex (· < ·) (l ++ u) (m ++ v) := by
  induction h with
  | nil => contradiction
  | cons _ ih => exact .cons (ih (Nat.succ.inj hl))
  | rel h => exact .rel h

/-- An order decided before the end does not depend on what follows. -/
theorem append {u v : List Nat} (h : Earlier l m) (hl : u.length ≤ v.length) :
    Earlier (l ++ u) (m ++ v) := by
  have ha : (l ++ u).length = l.length + u.length := List.length_append
  have hb : (m ++ v).length = m.length + v.length := List.length_append
  rcases List.shortlex_def.1 h with hlt | ⟨he, hx⟩
  · exact List.Shortlex.of_length_lt (by omega)
  · rcases Nat.lt_or_eq_of_le hl with hlt | heq
    · exact List.Shortlex.of_length_lt (by omega)
    · exact List.Shortlex.of_lex (by omega) (append_lex hx he u v)

theorem snoc {i j : Nat} (h : i < j) : Earlier (l ++ [i]) (l ++ [j]) :=
  List.Shortlex.append_left ((List.shortlex_singleton_iff i j).2 h) l

end Earlier

def cardsAt (hand : List Card) (positions : List Nat) : List Card := positions.filterMap (hand[·]?)

theorem cardsAt_append (hand : List Card) (l m : List Nat) :
    cardsAt hand (l ++ m) = cardsAt hand l ++ cardsAt hand m := List.filterMap_append

theorem rising_iff_sublist_range {l : List Nat} {n : Nat} :
    l.Pairwise (· < ·) ∧ (∀ i ∈ l, i < n) ↔ l.Sublist (List.range n) := by
  constructor
  · rintro ⟨hr, hw⟩
    have hs : l ⊆ List.range n := fun i hi => List.mem_range.2 (hw i hi)
    have hn : l.Nodup := hr.imp Nat.ne_of_lt
    exact List.sublist_of_subperm_of_pairwise (List.subperm_of_subset hn hs) hr
      List.pairwise_lt_range
  · intro h
    exact ⟨List.pairwise_lt_range.sublist h, fun i hi => List.mem_range.1 (h.subset hi)⟩

theorem filterMap_range_getElem? {α : Type} (xs : List α) :
    (List.range xs.length).filterMap (xs[·]?) = xs := by
  induction xs with
  | nil => rfl
  | cons x xs ih =>
    rw [List.length_cons, List.range_succ_eq_map, List.filterMap_cons_some List.getElem?_cons_zero,
      List.filterMap_map]
    exact congrArg (x :: ·) ih

theorem cardsAt_range (hand : List Card) : cardsAt hand (List.range hand.length) = hand :=
  filterMap_range_getElem? hand

/-- Rising positions pick any cards of a hand in their order, and nothing else. -/
theorem exists_cardsAt_iff {hand cards : List Card} :
    (∃ l, (l.Pairwise (· < ·) ∧ ∀ i ∈ l, i < hand.length) ∧ cardsAt hand l = cards) ↔
      cards.Sublist hand := by
  simp only [rising_iff_sublist_range]
  constructor
  · rintro ⟨l, hl, rfl⟩
    have hs := hl.filterMap (hand[·]?)
    rwa [← cardsAt, ← cardsAt, cardsAt_range] at hs
  · intro h
    -- a hand is what all of its positions pick, and a part of them picks a part of it
    rw [← cardsAt_range hand] at h
    obtain ⟨l, hl, rfl⟩ := List.sublist_filterMap_iff.1 h
    exact ⟨l, hl, rfl⟩

theorem length_cardsAt {hand : List Card} {l : List Nat} (h : ∀ i ∈ l, i < hand.length) :
    (cardsAt hand l).length = l.length := by
  induction l with
  | nil => rfl
  | cons i l ih =>
    have hi := List.getElem?_eq_getElem (h i List.mem_cons_self)
    rw [cardsAt, List.filterMap_cons_some hi, List.length_cons, List.length_cons, ← cardsAt,
      ih fun j hj => h j (List.mem_cons_of_mem i hj)]

namespace Automaton

/-- Rising positions of a hand, one at least, whose cards are accepted in their order. -/
structure Picks (a : Automaton) (hand : List Card) (positions : List Nat) : Prop where
  ne_nil : positions ≠ []
  rising : positions.Pairwise (· < ·)
  within : ∀ i ∈ positions, i < hand.length
  accepted : a.accepts (cardsAt hand positions) = true

def PicksFirst (a : Automaton) (hand : List Card) (positions : List Nat) : Prop :=
  a.Picks hand positions ∧ ∀ l, a.Picks hand l → l = positions ∨ Earlier positions l

structure Leads (a : Automaton) (hand : List Card) (positions : List Nat) (id : StateId) :
    Prop where
  rising : positions.Pairwise (· < ·)
  within : ∀ i ∈ positions, i < hand.length
  run : a.run? a.start (cardsAt hand positions) = some id

variable {a : Automaton} {hand : List Card} {l m : List Nat} {id next : StateId}

theorem picks_iff : a.Picks hand l ↔ l ≠ [] ∧ ∃ id, a.Leads hand l id ∧ a.isFinal id = true := by
  constructor
  · rintro ⟨hl, hr, hw, ha⟩
    obtain ⟨id, hi, hf⟩ := Option.any_eq_true _ _ |>.1 ha
    exact ⟨hl, id, ⟨hr, hw, hi⟩, hf⟩
  · rintro ⟨hl, id, ⟨hr, hw, hi⟩, hf⟩
    exact ⟨hl, hr, hw, Option.any_eq_true _ _ |>.2 ⟨id, hi, hf⟩⟩

theorem exists_picksFirst (h : a.Picks hand l) : ∃ m, a.PicksFirst hand m := by
  obtain ⟨m, hm, least⟩ := (List.Shortlex.wf Nat.lt_wfRel.wf).has_min {l | a.Picks hand l} ⟨l, h⟩
  exact ⟨m, hm, fun l hl => Earlier.eq_or_earlier (least l hl)⟩

theorem PicksFirst.unique (hl : a.PicksFirst hand l) (hm : a.PicksFirst hand m) : l = m := by
  rcases hl.2 m hm.1 with h | h
  · exact h.symm
  · exact (hm.2 l hl.1).resolve_right h.asymm

theorem Picks.length_le (h : a.Picks hand l) : l.length ≤ hand.length := by
  have hs := (rising_iff_sublist_range.1 ⟨h.rising, h.within⟩).length_le
  rwa [List.length_range] at hs

theorem exists_picks_iff : (∃ l, a.Picks hand l) ↔
    ∃ cards, cards.Sublist hand ∧ cards ≠ [] ∧ a.accepts cards = true := by
  constructor
  · rintro ⟨l, hl⟩
    refine ⟨_, exists_cardsAt_iff.1 ⟨l, ⟨hl.rising, hl.within⟩, rfl⟩, ?_, hl.accepted⟩
    rw [← List.length_pos_iff, length_cardsAt hl.within]
    exact List.length_pos_iff.2 hl.ne_nil
  · rintro ⟨cards, hs, hne, ha⟩
    obtain ⟨l, ⟨hr, hw⟩, rfl⟩ := exists_cardsAt_iff.2 hs
    refine ⟨l, fun hl => hne ?_, hr, hw, ha⟩
    rw [hl, cardsAt, List.filterMap_nil]

namespace Leads

theorem nil : a.Leads hand [] a.start := ⟨.nil, nofun, rfl⟩

theorem unique (h : a.Leads hand l id) (h' : a.Leads hand l next) : id = next :=
  Option.some.inj (h.run.symm.trans h'.run)

theorem of_append (h : a.Leads hand (l ++ m) next) :
    ∃ id, a.Leads hand l id ∧ a.run? id (cardsAt hand m) = some next := by
  have hr := h.run
  rw [cardsAt_append, run?_append] at hr
  obtain ⟨id, hi, hn⟩ := Option.bind_eq_some_iff.1 hr
  refine ⟨id, ⟨?_, ?_, hi⟩, hn⟩
  · exact h.rising.sublist (List.sublist_append_left l m)
  · exact fun i hm => h.within i (List.mem_append_left m hm)

/-- One card more is one step more. -/
theorem snoc {i : Nat} {card : Card} (h : a.Leads hand l id) (hl : ∀ j ∈ l, j < i)
    (hc : hand[i]? = some card) (hs : a.step? id card = some next) :
    a.Leads hand (l ++ [i]) next where
  rising := by
    rw [List.pairwise_append]
    refine ⟨h.rising, List.pairwise_singleton .., fun j hj k hk => ?_⟩
    obtain rfl := List.mem_singleton.1 hk
    exact hl j hj
  within j hj := by
    rcases List.mem_append.1 hj with hj | hj
    · exact h.within j hj
    · obtain rfl := List.mem_singleton.1 hj
      exact (List.getElem?_eq_some_iff.1 hc).1
  run := by
    rw [cardsAt_append, run?_append, h.run]
    simp [cardsAt, hc, run?, hs]

theorem exists_step {i : Nat} {r : List Nat} (h : a.Leads hand l id)
    (h' : a.Leads hand (l ++ i :: r) next) : ∃ card mid, hand[i]? = some card ∧
      a.step? id card = some mid := by
  obtain ⟨id', hi, hr⟩ := h'.of_append
  obtain rfl := h.unique hi
  have hlt : i < hand.length := h'.within i (List.mem_append_right l List.mem_cons_self)
  have hc := List.getElem?_eq_getElem hlt
  rw [cardsAt, List.filterMap_cons_some hc] at hr
  obtain ⟨mid, hs, -⟩ := Option.bind_eq_some_iff.1 hr
  exact ⟨_, mid, hc, hs⟩

/-- Positions that lead to one state and end alike can be exchanged. -/
theorem exchange {i : Nat} {r : List Nat} (h : a.Leads hand (l ++ [i]) id)
    (h' : a.Leads hand (m ++ [i]) id) (hr : a.Leads hand (l ++ [i] ++ r) next) :
    a.Leads hand (m ++ [i] ++ r) next where
  rising := by
    have hp := List.pairwise_append.1 hr.rising
    have hi := List.pairwise_append.1 h'.rising
    rw [List.pairwise_append]
    refine ⟨h'.rising, hp.2.1, fun j hj k hk => ?_⟩
    have hik : i < k := hp.2.2 i List.mem_concat_self k hk
    rcases List.mem_append.1 hj with hj | hj
    · exact (hi.2.2 j hj i List.mem_cons_self).trans hik
    · exact List.mem_singleton.1 hj ▸ hik
  within j hj := by
    rcases List.mem_append.1 hj with hj | hj
    · exact h'.within j hj
    · exact hr.within j (List.mem_append_right _ hj)
  run := by
    obtain ⟨id', hi, hn⟩ := hr.of_append
    obtain rfl := h.unique hi
    rw [cardsAt_append, run?_append, h'.run]
    exact hn

end Leads
end Automaton
end Meld
