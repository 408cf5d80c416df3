import Meld.Proofs.Completion
import Meld.Proofs.Counting

namespace Meld.Automaton

/-- Whatever is asked of them about a list of cards, two automata answer the same. -/
structure Alike (a b : Automaton) : Prop where
  accepts : ∀ cards, a.accepts cards = b.accepts cards
  acceptsSomePrefix : ∀ cards, a.acceptsSomePrefix cards = b.acceptsSomePrefix cards
  takes : ∀ cards, a.takes cards = b.takes cards
  pick? : ∀ hand, a.pick? hand = b.pick? hand

section

variable {a b : Automaton} (same : ∀ cards, a.accepts cards = b.accepts cards)

include same

theorem picks_congr {hand : List Card} {l : List Nat} : a.Picks hand l ↔ b.Picks hand l := by
  constructor
  · rintro ⟨hne, hr, hw, ha⟩
    exact ⟨hne, hr, hw, (same _).symm.trans ha⟩
  · rintro ⟨hne, hr, hw, ha⟩
    exact ⟨hne, hr, hw, (same _).trans ha⟩

/-- A search depends on its graph only through the cards that are accepted. -/
theorem pick?_congr (needed : a.phase.minCards = b.phase.minCards) (hand : List Card) :
    a.pick? hand = b.pick? hand := by
  cases ha : a.pick? hand with
  | error e =>
    rw [pick?_eq_error_iff, needed] at ha
    exact (pick?_eq_error_iff.2 ha).symm
  | ok found =>
    cases found with
    | none =>
      rw [pick?_eq_none_iff, needed] at ha
      simp only [picks_congr same] at ha
      exact (pick?_eq_none_iff.2 ha).symm
    | some l =>
      rw [pick?_eq_some_iff, needed] at ha
      simp only [PicksFirst, picks_congr same] at ha
      exact (pick?_eq_some_iff.2 ha).symm

end

variable {p q : Phase}

/-- Phases that the same cards meet, and that need equally many, compile to graphs which answer
alike, however these are laid out. -/
theorem alike_compile (hp : p.Legal) (hq : q.Legal) (small : (compile p).size < UInt32.size)
    (small' : (compile q).size < UInt32.size) (need : p.minCards = q.minCards)
    (same : ∀ cards, p.IsMetBy cards ↔ q.IsMetBy cards) : (compile p).Alike (compile q) := by
  have accepts (cards : List Card) : (compile p).accepts cards = (compile q).accepts cards := by
    rw [Bool.eq_iff_iff, accepts_iff_isMetBy hp small, accepts_iff_isMetBy hq small', same]
  have takes (cards : List Card) : (compile p).takes cards = (compile q).takes cards := by
    rw [Bool.eq_iff_iff, ← accepts_append_wilds_iff hp small, ← accepts_append_wilds_iff hq small',
      accepts, need]
  refine ⟨accepts, fun cards => ?_, takes, pick?_congr accepts need⟩
  have hs := (compile_awaits hp small).acceptsSomePrefixFrom_iff cards
  have hs' := (compile_awaits hq small').acceptsSomePrefixFrom_iff cards
  rw [← need] at hs'
  rw [Bool.eq_iff_iff]
  refine hs.trans (Iff.trans ?_ hs'.symm)
  exact and_congr_right fun _ => Bool.eq_iff_iff.1 (takes _)

theorem size_compile_unsized_lt (shape : Shape) :
    (compile (.unsized shape)).size < UInt32.size := by
  cases shape <;> decide

/-- An open group of any size is one of at least one card. -/
theorem alike_unsized {shape : Shape} (hs : shape ≠ .run) :
    (compile (.unsized shape)).Alike (compile (.sized [⟨shape, 1⟩])) := by
  have range : Component.InRange ⟨shape, 1⟩ := by cases shape <;> decide
  refine alike_compile trivial (legal_single range) (size_compile_unsized_lt shape)
    (size_compile_single_lt range) rfl fun cards => ?_
  refine and_congr List.length_pos_iff.symm ?_
  exact (and_iff_right fun he => absurd he hs).symm

/-- One card is all that is missing at first. -/
theorem takes_unsized_iff (shape : Shape) (cards : List Card) :
    (compile (.unsized shape)).takes cards = true ↔
      cards = [] ∨ (compile (.unsized shape)).accepts cards = true := by
  cases cards with
  | nil => exact iff_of_true rfl (.inl rfl)
  | cons card cards =>
    have enough : Phase.minCards (.unsized shape) ≤ (card :: cards).length := Nat.le_add_left ..
    rw [accepts_iff_takes (p := .unsized shape) trivial (size_compile_unsized_lt shape),
      and_iff_left enough]
    exact (or_iff_right (List.cons_ne_nil _ _)).symm

/-- A run of any size is one of as many cards as there are. -/
theorem accepts_unsized_run_iff (cards : List Card) :
    (compile (.unsized .run)).accepts cards = true ↔ 1 ≤ cards.length ∧ cards.length ≤ 12 ∧
      (compile (.sized [⟨.run, UInt64.ofNat cards.length⟩])).accepts cards = true := by
  rw [accepts_iff_isMetBy (p := .unsized .run) trivial (size_compile_unsized_lt .run), ← and_assoc]
  -- a run has no more cards than there are ranks, which leaves the sizes that have an automaton
  have most (hm : (Phase.unsized .run).IsMetBy cards) : 1 ≤ cards.length ∧ cards.length ≤ 12 := by
    obtain ⟨hne, below, hl, -⟩ := hm
    exact ⟨List.length_pos_iff.2 hne, by omega⟩
  rw [← and_iff_right_of_imp most]
  refine and_congr_right fun hl => ?_
  have range := Component.inRange_ofNat .run hl.1 hl.2
  have word := Component.toNat_ofNat_of_le (hl.2.trans (by decide : 12 ≤ 108))
  rw [accepts_iff_isMetBy (legal_single range) (size_compile_single_lt range)]
  simp only [Phase.IsMetBy, Phase.Splits, word, le_refl, true_and, implies_true,
    List.length_pos_iff.1 hl.1, ne_eq, not_false_eq_true]

theorem ofText_letter (shape : Shape) :
    ofText (String.ofList [shape.letter]) = .ok (compile (.unsized shape)) := by
  rw [ofText, Phase.parse_letter String.toList_ofList]
  rfl

theorem exists_ofText_alike (shape : Shape) (hs : shape ≠ .run) :
    ∃ a b, ofText (String.ofList [shape.letter]) = .ok a ∧
      ofText (String.ofList [shape.letter, '1']) = .ok b ∧ a.Alike b := by
  have one : String.ofList [shape.letter, '1'] = String.ofList [shape.letter] ++ Text.decimal 1 := by
    cases shape <;> decide
  have most : 1 ≤ shape.limit := by cases shape <;> decide
  rw [one, ofText_letter, ofText_letter_decimal shape (Nat.le_refl 1) most]
  exact ⟨_, _, rfl, rfl, alike_unsized hs⟩

/-- A phase without a size answers as the sized phases do: a set and a color group as one of a
single card, and a run as the one that is as long as the list of cards. -/
theorem unsized_alike :
    (∃ a b, ofText "S" = .ok a ∧ ofText "S1" = .ok b ∧ a.Alike b) ∧
    (∃ a b, ofText "C" = .ok a ∧ ofText "C1" = .ok b ∧ a.Alike b) ∧
    ∃ a, ∃ run : Nat → Automaton, ofText "R" = .ok a ∧
      (∀ n, 1 ≤ n → n ≤ 12 → ofText ("R" ++ Text.decimal n) = .ok (run n)) ∧
      (∀ cards, a.accepts cards = true ↔ 1 ≤ cards.length ∧ cards.length ≤ 12 ∧
        (run cards.length).accepts cards = true) ∧
      ∀ cards, a.takes cards = true ↔ cards = [] ∨ a.accepts cards = true := by
  refine ⟨exists_ofText_alike .set nofun, exists_ofText_alike .color nofun, _,
    fun n => compile (.sized [⟨.run, UInt64.ofNat n⟩]), ofText_letter .run, fun n pos most => ?_,
    accepts_unsized_run_iff, takes_unsized_iff .run⟩
  exact ofText_letter_decimal .run pos most

/-- Two wild cards stand for a ten and an eleven, and not for what would come before a two. -/
theorem unsized_alike_three : ∃ a, ofText "R" = .ok a ∧
    a.accepts [Card.wild, Card.wild, ⟨.red, .number 11, by decide, by decide⟩] = true ∧
    a.accepts [Card.wild, Card.wild, ⟨.red, .number 1, by decide, by decide⟩] = false := by
  obtain ⟨-, -, a, run, ha, sized, accepts, -⟩ := unsized_alike
  have three : run 3 = compile (.sized [⟨.run, 3⟩]) :=
    Except.ok.inj ((sized 3 (by decide) (by decide)).symm.trans
      (ofText_letter_decimal .run (by decide) (by decide)))
  refine ⟨a, ha, (accepts _).2 ⟨by decide, by decide, ?_⟩, Bool.eq_false_iff.2 fun h => ?_⟩
  · exact three ▸ (by decide : (compile (.sized [⟨.run, 3⟩])).accepts _ = true)
  · have hr := ((accepts _).1 h).2.2
    rw [List.length_cons, List.length_cons, List.length_singleton, three] at hr
    exact absurd hr (by decide)

end Meld.Automaton
