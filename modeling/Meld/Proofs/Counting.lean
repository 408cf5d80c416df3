import Meld.Proofs.Grammar
import Meld.Proofs.Shortest

namespace Meld

open Blueprint

namespace Guard

variable {g : Guard} {hand : List Card} {n : Nat}

def supply (g : Guard) (hand : List Card) : Nat := hand.countP g.fits + hand.count Card.wild

def serves (g : Guard) (c : Card) : Bool := c.isWild || g.fits c

theorem serves_iff {c : Card} : g.serves c = true ↔ c = Card.wild ∨ g.fits c = true := by
  rw [serves, Bool.or_eq_true, Card.isWild_iff]

theorem countP_serves (hw : g.fits Card.wild = false) (hand : List Card) :
    hand.countP g.serves = g.supply hand := by
  induction hand with
  | nil => rfl
  | cons c cards ih =>
    unfold supply at ih ⊢
    rw [List.countP_cons, List.countP_cons, List.count_cons, ih]
    -- no card is counted twice
    by_cases hc : c = Card.wild
    · subst hc
      have hs : g.serves Card.wild = true := serves_iff.2 (.inl rfl)
      simp only [hs, hw, beq_self_eq_true, Bool.false_eq_true, if_true, if_false]
      omega
    · have hs : g.serves c = g.fits c := by
        rw [serves, Bool.eq_false_iff.2 (mt Card.isWild_iff.1 hc), Bool.false_or]
      simp only [hs, beq_iff_eq, hc, if_false]
      omega

/-- The largest group is made of all cards that go into it, in whatever order they are held. -/
theorem exists_sublist_iff (hw : g.fits Card.wild = false) :
    (∃ cards : List Card, cards.Sublist hand ∧ n ≤ cards.length ∧
      ∀ c ∈ cards, c = Card.wild ∨ g.fits c = true) ↔ n ≤ g.supply hand := by
  simp only [← serves_iff]
  rw [← countP_serves hw]
  constructor
  · rintro ⟨cards, hs, hn, hc⟩
    rw [← List.countP_eq_length.2 hc] at hn
    exact hn.trans hs.countP_le
  · intro hn
    rw [List.countP_eq_length_filter] at hn
    exact ⟨hand.filter g.serves, List.filter_sublist, hn, fun c hc => (List.mem_filter.1 hc).2⟩

theorem supply_perm {hand' : List Card} (h : hand'.Perm hand) : g.supply hand' = g.supply hand := by
  rw [supply, supply, h.countP_eq, h.count_eq]

theorem exists_supply_rankKeys_iff : (∃ g ∈ rankKeys, n ≤ g.supply hand) ↔
    ∃ step : Fin 12, n ≤ hand.countP (·.rank = .number step) + hand.count Card.wild := by
  have fits (r : Rank) : (rank r).fits = fun c => decide (c.rank = r) :=
    funext fun c => decide_eq_decide.2 eq_comm
  simp [rankKeys, Rank.numbered, supply, fits]

theorem exists_supply_colorKeys_iff : (∃ g ∈ colorKeys, n ≤ g.supply hand) ↔
    ∃ k ∈ Color.real, n ≤ hand.countP (·.color = k) + hand.count Card.wild := by
  have fits (k : Color) : (color k).fits = fun c => decide (c.color = k) :=
    funext fun c => decide_eq_decide.2 eq_comm
  simp only [colorKeys, List.mem_map, exists_exists_and_eq_and, supply, fits]

end Guard

namespace Component

variable {c : Component}

theorem inRange_ofNat (shape : Shape) {n : Nat} (pos : 1 ≤ n) (most : n ≤ shape.limit) :
    InRange ⟨shape, UInt64.ofNat n⟩ := by
  rw [InRange, toNat_ofNat_of_le (most.trans shape.limit_le)]
  exact ⟨pos, most⟩

/-- A group of any size that a text can ask for has few states. -/
theorem size_plan_lt (h : c.InRange) : c.track.plan.size < UInt32.size := by
  have size : c.track.plan.size = 1 + c.size.toNat * (c.track.width + 1) := by
    rw [← c.track_size]
    exact c.track.length_places
  have width : c.track.width ≤ 13 := by
    unfold track
    split
    · exact (by decide : rankKeys.length ≤ 13)
    · exact (by decide : colorKeys.length ≤ 13)
    · exact Nat.sub_le ..
  have := Nat.mul_le_mul (h.2.trans c.shape.limit_le) (Nat.succ_le_succ width)
  rw [size]
  exact Nat.lt_of_le_of_lt (Nat.add_le_add_left this 1) (by decide)

end Component

namespace Automaton

variable {c : Component} {hand : List Card}

theorem legal_single (h : c.InRange) : (Phase.sized [c]).Legal :=
  ⟨by simp, List.forall_mem_singleton.2 h⟩

theorem size_compile_single_lt (h : c.InRange) : (compile (.sized [c])).size < UInt32.size := by
  have := Component.size_plan_lt h
  rwa [← Plan.length_states _ 0 .finish] at this

theorem ofText_text (h : c.InRange) : ofText c.text = .ok (compile (.sized [c])) := by
  have parsed : Phase.parse c.text = .ok (.sized [c]) := by
    refine Phase.parse_eq_sized_iff.2 ⟨[c.chars], by simp, ?_, ?_⟩
    · exact String.toList_ofList.trans (List.append_nil _).symm
    · exact .cons ⟨c.spelled_chars, h⟩ .nil
  rw [ofText, parsed]
  rfl

/-- A number in range behind the letter of a shape is a phase of one group. -/
theorem ofText_letter_decimal (shape : Shape) {n : Nat} (pos : 1 ≤ n) (most : n ≤ shape.limit) :
    ofText (String.ofList [shape.letter] ++ Text.decimal n) =
      .ok (compile (.sized [⟨shape, UInt64.ofNat n⟩])) := by
  have text : String.ofList [shape.letter] ++ Text.decimal n =
      Component.text ⟨shape, UInt64.ofNat n⟩ := by
    rw [Component.text, Component.chars, Component.toNat_ofNat_of_le (most.trans shape.limit_le),
      Text.decimal, ← String.ofList_append, List.singleton_append]
  rw [text, ofText_text (Component.inRange_ofNat shape pos most)]

section

variable {keys : List Guard}

/-- A group is picked out of a hand just when the hand can supply one of its keys. -/
theorem exists_canPick_supply_iff (h : c.InRange) (hs : c.shape ≠ .run) (sharp : Sharp keys)
    (groups : ∀ {cards}, c.shape.Groups cards ↔
      ∃ g ∈ keys, ∀ card ∈ cards, card = Card.wild ∨ g.fits card = true)
    (hl : hand.length ≤ handLimit) : ∃ found, (compile (.sized [c])).canPick hand = .ok found ∧
      (found = true ↔ ∃ g ∈ keys, c.size.toNat ≤ g.supply hand) := by
  have legal := legal_single h
  have small := size_compile_single_lt h
  obtain ⟨found, answer, found_iff⟩ := exists_canPick_iff legal small hand
  refine ⟨found, answer, found_iff.trans ?_⟩
  rw [List.take_of_length_le hl]
  simp only [accepts_iff_isMetBy legal small, Phase.IsMetBy, Phase.Splits, hs, false_imp_iff,
    true_and, groups]
  constructor
  · rintro ⟨cards, hc, hn, g, hg, hf⟩
    exact ⟨g, hg, (Guard.exists_sublist_iff (sharp.not_wild g hg)).1 ⟨cards, hc, hn, hf⟩⟩
  · rintro ⟨g, hg, hn⟩
    obtain ⟨cards, hc, hn, hf⟩ := (Guard.exists_sublist_iff (sharp.not_wild g hg)).2 hn
    exact ⟨cards, hc, hn, g, hg, hf⟩

theorem exists_ofText_supply (shape : Shape) (hs : shape ≠ .run) (sharp : Sharp keys)
    (groups : ∀ {cards}, shape.Groups cards ↔
      ∃ g ∈ keys, ∀ card ∈ cards, card = Card.wild ∨ g.fits card = true)
    {n : Nat} (pos : 1 ≤ n) (most : n ≤ 108) :
    ∃ a, ofText (String.ofList [shape.letter] ++ Text.decimal n) = .ok a ∧
      ∀ hand, hand.length ≤ handLimit →
        (∃ found, a.canPick hand = .ok found ∧ (found = true ↔ ∃ g ∈ keys, n ≤ g.supply hand)) ∧
        ∀ hand', hand'.Perm hand → a.canPick hand' = a.canPick hand := by
  have limit : n ≤ shape.limit := by
    cases shape with
    | run => contradiction
    | _ => exact most
  have supply {hand : List Card} (hl : hand.length ≤ handLimit) :=
    exists_canPick_supply_iff (Component.inRange_ofNat shape pos limit) hs sharp groups hl
  simp only [Component.toNat_ofNat_of_le most] at supply
  rw [ofText_letter_decimal shape pos limit]
  refine ⟨_, rfl, fun hand hl => ⟨supply hl, fun hand' hp => ?_⟩⟩
  obtain ⟨found, answer, found_iff⟩ := supply hl
  obtain ⟨found', answer', found_iff'⟩ := supply (hp.length_eq.trans_le hl)
  simp only [Guard.supply_perm hp] at found_iff'
  rw [answer, answer', Bool.eq_iff_iff.2 (found_iff'.trans found_iff.symm)]

end

/-- Of a set or a color group only the numbers of the cards matter: those of one rank or of one
real color, with the wild cards, have to be enough. -/
theorem canPick_group (n : Nat) (pos : 1 ≤ n) (most : n ≤ 108) :
    (∃ a, ofText ("S" ++ Text.decimal n) = .ok a ∧ ∀ hand, hand.length ≤ 128 →
      (∃ found, a.canPick hand = .ok found ∧ (found = true ↔
        ∃ step : Fin 12, n ≤ hand.countP (·.rank = .number step) + hand.count Card.wild)) ∧
      ∀ hand', hand'.Perm hand → a.canPick hand' = a.canPick hand) ∧
    ∃ a, ofText ("C" ++ Text.decimal n) = .ok a ∧ ∀ hand, hand.length ≤ 128 →
      (∃ found, a.canPick hand = .ok found ∧ (found = true ↔
        ∃ k ∈ Color.real, n ≤ hand.countP (·.color = k) + hand.count Card.wild)) ∧
      ∀ hand', hand'.Perm hand → a.canPick hand' = a.canPick hand := by
  simp only [← Guard.exists_supply_rankKeys_iff, ← Guard.exists_supply_colorKeys_iff]
  exact ⟨exists_ofText_supply .set nofun rankKeys_sharp Shape.groups_set_iff pos most,
    exists_ofText_supply .color nofun colorKeys_sharp Shape.groups_color_iff pos most⟩

/-- Two fours and a wild card are a set of three, and they have no color in common. -/
theorem canPick_group_three :
    (∃ a, ofText "S3" = .ok a ∧ a.canPick [Card.wild, ⟨.red, .number 3, by decide, by decide⟩,
      Card.skip, ⟨.blue, .number 3, by decide, by decide⟩] = .ok true) ∧
    ∃ a, ofText "C3" = .ok a ∧ a.canPick [Card.wild, ⟨.red, .number 3, by decide, by decide⟩,
      Card.skip, ⟨.blue, .number 3, by decide, by decide⟩] = .ok false := by
  obtain ⟨⟨a, ha, sets⟩, b, hb, colors⟩ := canPick_group 3 (by decide) (by decide)
  refine ⟨⟨a, ha, ?_⟩, b, hb, ?_⟩
  · obtain ⟨⟨found, answer, found_iff⟩, -⟩ := sets [Card.wild,
      ⟨.red, .number 3, by decide, by decide⟩, Card.skip,
      ⟨.blue, .number 3, by decide, by decide⟩] (by decide)
    rw [answer, found_iff.2 ⟨3, by decide⟩]
  · obtain ⟨⟨found, answer, found_iff⟩, -⟩ := colors [Card.wild,
      ⟨.red, .number 3, by decide, by decide⟩, Card.skip,
      ⟨.blue, .number 3, by decide, by decide⟩] (by decide)
    have missed : ¬found = true := mt found_iff.1 (by decide)
    rw [answer, Bool.eq_false_iff.2 missed]

end Automaton
end Meld
