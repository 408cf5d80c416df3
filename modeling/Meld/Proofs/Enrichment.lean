import Meld.Proofs.Shortfall

namespace Meld

variable {c d : Card} {cards cards' hand hand' : List Card}

/-- A card is kept, or a wild card takes its place. -/
def Card.Yields (c d : Card) : Prop := d = c ∨ d = wild

namespace Card.Yields

instance : Std.Refl Yields := ⟨fun _ => .inl rfl⟩

instance : IsTrans Card Yields where
  trans _ _ _ h h' := by
    rcases h' with rfl | rfl
    · exact h
    · exact .inr rfl

/-- What a card has to be, unless it is wild, is asked no more of the wild card in its place. -/
theorem wild_or {P : Card → Prop} (h : c.Yields d) (hc : c = wild ∨ P c) : d = wild ∨ P d := by
  rcases h with rfl | rfl
  · exact hc
  · exact .inl rfl

theorem forall_wild_or {P : Card → Prop} (h : List.Forall₂ Yields cards cards')
    (hc : ∀ c ∈ cards, c = wild ∨ P c) : ∀ d ∈ cards', d = wild ∨ P d := by
  intro d hd
  obtain ⟨c, hm, hy⟩ := exists_mem_of_forall₂ h hd
  exact hy.wild_or (hc c hm)

end Card.Yields

theorem Shape.Groups.of_yields {shape : Shape} (hg : shape.Groups cards)
    (h : List.Forall₂ Card.Yields cards cards') : shape.Groups cards' := by
  cases shape with
  | set =>
    obtain ⟨step, hc⟩ := hg
    exact ⟨step, Card.Yields.forall_wild_or h hc⟩
  | color =>
    obtain ⟨k, hk, hc⟩ := hg
    exact ⟨k, hk, Card.Yields.forall_wild_or h hc⟩
  | run =>
    obtain ⟨below, hl, hc⟩ := hg
    refine ⟨below, h.length_eq ▸ hl, fun i hi => ?_⟩
    have hi' : i < cards.length := h.length_eq ▸ hi
    have hy : cards[i].Yields cards'[i] := h.get hi' hi
    exact hy.wild_or (P := fun c => c.rank.value? = some (below + i + 1)) (hc i hi')

theorem Phase.Splits.of_yields {components : List Component} (hs : Splits components cards)
    (h : List.Forall₂ Card.Yields cards cards') : Splits components cards' := by
  induction components generalizing cards cards' with
  | nil => exact hs
  | cons c cs ih =>
    cases cs with
    | nil =>
      obtain ⟨hl, hr, hg⟩ := hs
      exact ⟨h.length_eq ▸ hl, h.length_eq ▸ hr, hg.of_yields h⟩
    | cons d ds =>
      obtain ⟨hl, hg, hs⟩ := hs
      exact ⟨h.length_eq ▸ hl, hg.of_yields (List.forall₂_take _ h), ih hs (List.forall₂_drop _ h)⟩

/-- Wild cards do in any place of a hand that meets a phase. -/
theorem Phase.IsMetBy.of_yields {p : Phase} (hp : p.IsMetBy cards)
    (h : List.Forall₂ Card.Yields cards cards') : p.IsMetBy cards' := by
  cases p with
  | unsized shape =>
    obtain ⟨hne, hg⟩ := hp
    have hpos : 0 < cards'.length := h.length_eq ▸ List.length_pos_iff.2 hne
    exact ⟨List.length_pos_iff.1 hpos, Shape.Groups.of_yields hg h⟩
  | sized components => exact Splits.of_yields hp h

/-- What is chosen from a hand is still there, up to wild cards, when the hand gets richer. -/
theorem exists_yields_sublist (h : List.SublistForall₂ Card.Yields hand hand')
    (hs : cards.Sublist hand) :
    ∃ cards', List.Forall₂ Card.Yields cards cards' ∧ cards'.Sublist hand' :=
  List.sublistForall₂_iff.1 (IsTrans.trans _ _ _ hs.sublistForall₂ h)

namespace Automaton

variable {p : Phase}

theorem accepts_of_yields (legal : p.Legal) (small : (compile p).size < UInt32.size)
    (h : List.Forall₂ Card.Yields cards cards') (ha : (compile p).accepts cards = true) :
    (compile p).accepts cards' = true := by
  rw [accepts_iff_isMetBy legal small] at ha ⊢
  exact ha.of_yields h

/-- Neither more cards nor wild cards in place of others make a search fail. -/
theorem canPick_mono {text : String} (parsed : Phase.parse text = .ok p)
    (small : (compile p).size < UInt32.size) (most : hand'.length ≤ 128)
    (richer : List.SublistForall₂ Card.Yields hand hand')
    (found : (compile p).canPick hand = .ok true) : (compile p).canPick hand' = .ok true := by
  have legal := Phase.legal_of_parse parsed
  -- the search looks at the whole of the richer hand, which has room for what was chosen
  have whole : hand'.take handLimit = hand' := List.take_of_length_le most
  obtain ⟨cards, hs, ha⟩ := (canPick_compile_iff legal small).1 found
  obtain ⟨cards', hy, hs'⟩ := exists_yields_sublist richer (hs.trans (List.take_sublist ..))
  rw [canPick_compile_iff legal small, whole]
  exact ⟨cards', hs', accepts_of_yields legal small hy ha⟩

/-- Wild cards for the card of the set and for one of the run, and two cards that are of no use. -/
theorem canPick_mono_set_run :
    Phase.parse "S1+R2" = .ok (.sized [⟨.set, 1⟩, ⟨.run, 2⟩]) ∧
    (compile (.sized [⟨.set, 1⟩, ⟨.run, 2⟩])).size < UInt32.size ∧
    (compile (.sized [⟨.set, 1⟩, ⟨.run, 2⟩])).canPick [⟨.blue, .number 8, by decide, by decide⟩,
      ⟨.red, .number 3, by decide, by decide⟩, ⟨.green, .number 4, by decide, by decide⟩] = .ok true ∧
    (compile (.sized [⟨.set, 1⟩, ⟨.run, 2⟩])).canPick [Card.skip, Card.wild,
      ⟨.red, .number 3, by decide, by decide⟩, ⟨.red, .number 3, by decide, by decide⟩,
      Card.wild] = .ok true := by
  have parsed : Phase.parse "S1+R2" = .ok (.sized [⟨.set, 1⟩, ⟨.run, 2⟩]) := by decide
  have small : (compile (.sized [⟨.set, 1⟩, ⟨.run, 2⟩])).size < UInt32.size := by decide
  have found : (compile (.sized [⟨.set, 1⟩, ⟨.run, 2⟩])).canPick
      [⟨.blue, .number 8, by decide, by decide⟩, ⟨.red, .number 3, by decide, by decide⟩,
        ⟨.green, .number 4, by decide, by decide⟩] = .ok true :=
    canPick_compile_of_accepts (Phase.legal_of_parse parsed) small (by decide) (by decide)
  refine ⟨parsed, small, found, canPick_mono parsed small (by decide) ?_ found⟩
  exact .cons_right (.cons (.inr rfl) (.cons (.inl rfl) (.cons_right (.cons (.inr rfl) .nil))))

end Automaton
end Meld
