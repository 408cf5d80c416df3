import Meld.Proofs.Progress
import Meld.Proofs.Safety

namespace Meld.Automaton

variable {a : Automaton} {id : StateId} {cards front : List Card}

/-- The walk that stops at the first final state stops if any prefix of the cards ends at one. -/
theorem acceptsSomePrefixFrom_iff_exists : a.acceptsSomePrefixFrom id cards = true ↔
    ∃ front, front <+: cards ∧ (a.run? id front).any a.isFinal = true := by
  induction cards generalizing id with
  | nil =>
    simp only [List.prefix_nil, exists_eq_left]
    rfl
  | cons card cards ih =>
    rw [acceptsSomePrefixFrom, Bool.or_eq_true, Option.any_eq_true]
    simp only [ih]
    constructor
    · rintro (hf | ⟨next, hs, front, hp, hf⟩)
      · exact ⟨[], List.nil_prefix, hf⟩
      · refine ⟨card :: front, List.cons_prefix_cons.2 ⟨rfl, hp⟩, ?_⟩
        rwa [run?, hs, Option.bind_some]
    · rintro ⟨front, hp, hf⟩
      cases front with
      | nil => exact .inl hf
      | cons first front =>
        obtain ⟨rfl, rest⟩ := List.cons_prefix_cons.1 hp
        rw [run?, Option.any_bind, Option.any_eq_true] at hf
        obtain ⟨next, hs, hf⟩ := hf
        exact .inr ⟨next, hs, front, rest, hf⟩

theorem acceptsSomePrefix_iff_exists (a : Automaton) (cards : List Card) :
    a.acceptsSomePrefix cards = true ↔ ∃ front, front <+: cards ∧ a.accepts front = true :=
  acceptsSomePrefixFrom_iff_exists

theorem acceptsSomePrefix_append (h : a.acceptsSomePrefix cards = true) (more : List Card) :
    a.acceptsSomePrefix (cards ++ more) = true := by
  rw [acceptsSomePrefix_iff_exists] at h ⊢
  obtain ⟨front, hp, ha⟩ := h
  exact ⟨front, hp.trans (List.prefix_append cards more), ha⟩

theorem takes_of_prefix (hp : front <+: cards) (h : a.takes cards = true) :
    a.takes front = true := by
  obtain ⟨more, rfl⟩ := hp
  exact takesFrom_of_append h

/-- On a sound graph all walks come to an answer. The one that waits for a final state agrees with
the one that takes all cards of some prefix, so further cards make no difference to it, and cards
that are taken are taken up to any point. -/
theorem acceptsSomePrefix_decides (sound : a.checkSound = .ok ()) :
    (∀ cards,
      Trusting.acceptsSomePrefixFrom a a.start cards = .ok (a.acceptsSomePrefix cards) ∧
      Trusting.accepts a cards = .ok (a.accepts cards) ∧
      Trusting.takes a cards = .ok (a.takes cards)) ∧
    (∀ cards, a.acceptsSomePrefix cards = true ↔
      ∃ front, front <+: cards ∧ a.accepts front = true) ∧
    (∀ cards more, a.acceptsSomePrefix cards = true →
      a.acceptsSomePrefix (cards ++ more) = true) ∧
    ∀ cards front, front <+: cards → a.takes cards = true → a.takes front = true := by
  have h := checkSound_eq_ok_iff.1 sound
  refine ⟨fun cards => ⟨?_, Trusting.accepts_eq h cards, Trusting.takes_eq h cards⟩,
    a.acceptsSomePrefix_iff_exists, fun _ more ha => acceptsSomePrefix_append ha more,
    fun _ _ => takes_of_prefix⟩
  exact Trusting.acceptsSomePrefixFrom_eq h h.start cards

/-- Any card leads to a final state, from which an epsilon transition leads on to a wild card. -/
def relay : Automaton :=
  ⟨.unsized .set, #[⟨false, [⟨.otherwise, 1⟩]⟩, ⟨true, [⟨.epsilon, 2⟩]⟩,
    ⟨false, [⟨.rank .wild, 1⟩]⟩], 0, [1]⟩

/-- The skip card is refused, but the cards before it are accepted. -/
theorem acceptsSomePrefix_decides_relay :
    relay.checkSound = .ok () ∧ relay.accepts [Card.skip, Card.wild] = true ∧
    relay.acceptsSomePrefix [Card.skip, Card.wild, Card.skip] = true ∧
    relay.takes [Card.skip, Card.wild, Card.skip] = false ∧
    Trusting.acceptsSomePrefixFrom relay relay.start [Card.skip, Card.wild, Card.skip] =
      .ok true := by
  have sound : relay.checkSound = .ok () := by decide
  have accepted : relay.accepts [Card.skip, Card.wild] = true := by decide
  obtain ⟨answers, exists_iff, append, -⟩ := acceptsSomePrefix_decides sound
  have waits := append _ [Card.skip] ((exists_iff [Card.skip, Card.wild]).2
    ⟨_, List.prefix_rfl, accepted⟩)
  refine ⟨sound, accepted, waits, by decide, ?_⟩
  rw [(answers _).1]
  exact congrArg Except.ok waits

end Meld.Automaton
