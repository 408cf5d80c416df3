import Meld.Proofs.Drawing
import Meld.Proofs.RoundTrip

namespace Meld.Automaton

variable {a : Automaton} {id here next : StateId} {count n : Nat} {card : Card}

theorem Sound.has_run (h : a.Sound) (hid : a.has id = true) {cards : List Card}
    (hr : a.run? id cards = some next) : a.has next = true := by
  induction cards generalizing id with
  | nil => exact Option.some.inj hr ▸ hid
  | cons card cards ih =>
    obtain ⟨mid, hs, hr⟩ := Option.bind_eq_some_iff.1 hr
    exact ih (h.has_step hs) hr

namespace Trusting

theorem closure_of_hops (h : a.Hops count id here) (hn : count < n) :
    closure a n id = .ok here := by
  induction h generalizing n with
  | rest hs he =>
    obtain ⟨n, rfl⟩ := Nat.exists_eq_add_one.2 hn
    exact closure_of_epsilon?_eq_none hs he n
  | hop hs he _ ih =>
    obtain ⟨n, rfl⟩ := Nat.exists_eq_add_one.2 (Nat.zero_lt_of_lt hn)
    rw [closure_of_epsilon?_eq_some hs he]
    exact ih (Nat.lt_of_succ_lt_succ hn)

theorem step_eq (h : a.Sound) (id : StateId) (card : Card) :
    step a id card = .ok (a.step? id card) := by
  unfold step
  split
  · next hs =>
    have hn : a.has id = false := by
      rw [Bool.eq_false_iff, Ne, has_iff, hs]
      exact nofun
    rw [step?_eq_none_of_not_has hn]
    rfl
  · next s hs =>
    obtain ⟨count, hlt, here, hc, hh⟩ := h.hops (has_of_state? hs)
    obtain ⟨s, hs, -⟩ := hh.end_state
    rw [closure_of_hops hh hlt, step?, hc, Option.bind_some, hs]
    change (state a here).bind _ = _
    rw [state_eq hs]
    rfl

theorem isFinal_eq (hid : a.has id = true) : isFinal a id = .ok (a.isFinal id) := by
  obtain ⟨s, hs⟩ := has_iff.1 hid
  rw [isFinal, state_eq hs, Automaton.isFinal_eq hs]
  rfl

theorem run_eq (h : a.Sound) (id : StateId) (cards : List Card) :
    run a id cards = .ok (a.run? id cards) := by
  induction cards generalizing id with
  | nil => rfl
  | cons card cards ih =>
    rw [run, step_eq h, run?]
    cases a.step? id card with
    | none => rfl
    | some next => exact ih next

theorem accepts_eq (h : a.Sound) (cards : List Card) : accepts a cards = .ok (a.accepts cards) := by
  rw [accepts, run_eq h, Automaton.accepts]
  cases hr : a.run? a.start cards with
  | none => rfl
  | some id => exact isFinal_eq (h.has_run h.start hr)

theorem takes_eq (h : a.Sound) (cards : List Card) : takes a cards = .ok (a.takes cards) := by
  rw [takes, run_eq h]
  rfl

theorem acceptsSomePrefixFrom_eq (h : a.Sound) (hid : a.has id = true) (cards : List Card) :
    acceptsSomePrefixFrom a id cards = .ok (a.acceptsSomePrefixFrom id cards) := by
  induction cards generalizing id with
  | nil => exact isFinal_eq hid
  | cons card cards ih =>
    rw [acceptsSomePrefixFrom, isFinal_eq hid, step_eq h, Automaton.acceptsSomePrefixFrom]
    cases a.isFinal id with
    | true => rfl
    | false =>
      cases hs : a.step? id card with
      | none => rfl
      | some next => exact ih (h.has_step hs)

theorem reply_eq (h : a.Sound) {w : Walker a} (hw : a.has w.state = true) (call : Call) :
    reply w call = .ok (w.reply call) := by
  cases call with
  | restart => rfl
  | goTo id =>
    simp only [reply, Walker.reply, Walker.at?]
    cases a.state? id <;> rfl
  | take card =>
    simp only [reply, Walker.reply, Walker.take, step_eq h]
    cases a.step? w.state card <;> rfl
  | isFinal => rw [reply, isFinal_eq hw]; rfl
  | next id card => rw [reply, step_eq h]; rfl
  | accepts cards => rw [reply, accepts_eq h]; rfl
  | takes cards => rw [reply, takes_eq h]; rfl
  | acceptsSomePrefix cards => rw [reply, acceptsSomePrefixFrom_eq h h.start]; rfl
  | draw => rw [reply, draw_eq h]; rfl

end Trusting

namespace Walker

variable {w : Walker a}

theorem reply_refused {call : Call} (hr : (w.reply call).1 = .flag false) :
    (w.reply call).2 = w := by
  cases call with
  | restart => cases hr
  | goTo id =>
    revert hr
    simp only [reply]
    cases at? a id with
    | none => exact fun _ => rfl
    | some there => exact nofun
  | take card =>
    revert hr
    simp only [reply, take]
    cases a.step? w.state card with
    | none => exact fun _ => rfl
    | some next => exact nofun
  | isFinal | next | accepts | takes | acceptsSomePrefix | draw => rfl

theorem has_reply (h : a.Sound) (hw : a.has w.state = true) (call : Call) :
    a.has (w.reply call).2.state = true := by
  cases call with
  | restart => exact h.start
  | goTo id =>
    simp only [reply, at?]
    cases hs : a.state? id with
    | none => exact hw
    | some s => exact has_of_state? hs
  | take card =>
    simp only [reply, take]
    cases hs : a.step? w.state card with
    | none => exact hw
    | some next => exact h.has_step hs
  | isFinal | next | accepts | takes | acceptsSomePrefix | draw => exact hw

/-- A walker never leaves a sound graph. -/
theorem has_session (h : a.Sound) (hw : a.has w.state = true) (calls : List Call) :
    ∀ r ∈ w.session calls, a.has r.2.state = true := by
  induction calls generalizing w with
  | nil => exact nofun
  | cons call calls ih =>
    have next := has_reply h hw call
    intro r hr
    rcases List.mem_cons.1 hr with rfl | hr
    · exact next
    · exact ih next r hr

theorem trusting_session_eq (h : a.Sound) (hw : a.has w.state = true) (calls : List Call) :
    Trusting.session w calls = .ok (w.session calls) := by
  induction calls generalizing w with
  | nil => rfl
  | cons call calls ih =>
    rw [Trusting.session, Trusting.reply_eq h hw]
    change (Trusting.session (w.reply call).2 calls).bind _ = _
    rw [ih (has_reply h hw call)]
    rfl

end Walker

/-- On a graph that was restored, all calls are answered without care taken as they are with it:
no handle is without a state, and all epsilon transitions end after fewer of them than there are
states. A walker stays in the graph, and where it is refused it does not move. -/
theorem session_ofBytes {bytes : List UInt8} (restored : ofBytes bytes = .ok a)
    (calls : List Call) :
    Trusting.session (Walker.atStart a) calls = .ok ((Walker.atStart a).session calls) ∧
    (∀ r ∈ (Walker.atStart a).session calls, a.has r.2.state = true) ∧
    (∀ (w : Walker a) (call : Call), (w.reply call).1 = .flag false → (w.reply call).2 = w) ∧
    ∀ id, a.has id = true →
      ∃ count < a.size, ∃ here, a.closure? id = some here ∧ a.Hops count id here := by
  have h := sound_of_ofBytes restored
  exact ⟨Walker.trusting_session_eq h h.start calls, Walker.has_session h h.start calls,
    fun _ _ => Walker.reply_refused, fun _ => h.hops⟩

/-- The bytes are those of the ring, whose two states are one epsilon transition apart. -/
theorem session_ofBytes_skipRing :
    ofBytes [1, 1, 0, 251, 251, 0, 2, 0, 1, 0, 1, 1, 2, 1, 1, 83, 0, 4, 1, 0, 1, 1] =
      .ok skipRing ∧
    Trusting.session (Walker.atStart skipRing) [.goTo 2, .take Card.skip, .goTo 1] =
      .ok [(.flag false, ⟨0⟩), (.flag true, ⟨0⟩), (.flag true, ⟨1⟩)] ∧
    skipRing.Hops 1 0 1 := by
  have restored : ofBytes [1, 1, 0, 251, 251, 0, 2, 0, 1, 0, 1, 1, 2, 1, 1, 83, 0, 4, 1, 0, 1, 1] =
      .ok skipRing := by decide
  obtain ⟨answered, -, -, chains⟩ := session_ofBytes restored [.goTo 2, .take Card.skip, .goTo 1]
  obtain ⟨count, -, here, -, hops⟩ := chains 0 (by decide)
  obtain ⟨rfl, rfl⟩ := hops.unique (.hop rfl rfl (.rest rfl rfl) : skipRing.Hops 1 0 1)
  exact ⟨restored, answered, hops⟩

end Meld.Automaton
