import Meld.Automaton.Basic

namespace Meld

theorem Guard.rank_fits_iff {r : Rank} {c : Card} : (rank r).fits c = true ↔ c.rank = r := by
  rw [fits, decide_eq_true_eq, eq_comm]

theorem Guard.color_fits_iff {k : Color} {c : Card} : (color k).fits c = true ↔ c.color = k := by
  rw [fits, decide_eq_true_eq, eq_comm]

namespace State

theorem strongest?_eq_none_iff {ts : List Transition} : strongest? ts = none ↔ ts = [] := by
  cases ts with
  | nil => simp [strongest?]
  | cons t ts =>
    simp only [strongest?, reduceCtorEq, iff_false]
    split
    · simp
    · split <;> simp

theorem mem_of_strongest?_eq_some {ts : List Transition} {t : Transition}
    (h : strongest? ts = some t) : t ∈ ts := by
  induction ts with
  | nil => simp [strongest?] at h
  | cons u ts ih =>
    simp only [strongest?] at h
    split at h
    · exact Option.some.inj h ▸ List.mem_cons_self
    · next v hv =>
      split at h
      · exact List.mem_cons_of_mem u (ih (hv.trans h))
      · exact Option.some.inj h ▸ List.mem_cons_self

theorem exists_mem_of_step?_eq_some {s : State} {card : Card} {next : StateId}
    (h : s.step? card = some next) :
    ∃ t ∈ s.transitions, t.guard.fits card = true ∧ t.target = next := by
  obtain ⟨t, ht, rfl⟩ := Option.map_eq_some_iff.1 h
  have hm := List.mem_filter.1 (mem_of_strongest?_eq_some ht)
  exact ⟨t, hm.1, hm.2, rfl⟩

theorem step?_isSome_of_mem {s : State} {card : Card} {t : Transition} (ht : t ∈ s.transitions)
    (hf : t.guard.fits card = true) : ∃ next, s.step? card = some next := by
  rw [← Option.isSome_iff_exists, step?, Option.isSome_map, Option.isSome_iff_ne_none]
  intro h
  have he := strongest?_eq_none_iff.1 h
  exact List.not_mem_nil (he ▸ List.mem_filter.2 ⟨ht, hf⟩)

/-- Precedence does not matter where all transitions that fit the card lead to one state. -/
theorem step?_eq_some_iff_of_agree {s : State} {card : Card} {next : StateId}
    (agree : ∀ t ∈ s.transitions, ∀ u ∈ s.transitions, t.guard.fits card = true →
      u.guard.fits card = true → t.target = u.target) :
    s.step? card = some next ↔
      ∃ t ∈ s.transitions, t.guard.fits card = true ∧ t.target = next := by
  refine ⟨exists_mem_of_step?_eq_some, ?_⟩
  rintro ⟨t, ht, hf, rfl⟩
  obtain ⟨next, hn⟩ := step?_isSome_of_mem ht hf
  obtain ⟨u, hu, hg, rfl⟩ := exists_mem_of_step?_eq_some hn
  rw [hn, agree u hu t ht hg hf]

theorem epsilon?_eq_none_iff {s : State} :
    s.epsilon? = none ↔ ∀ t ∈ s.transitions, t.guard ≠ .epsilon := by
  simp [epsilon?, target?]

theorem epsilon?_insert (s : State) (next : StateId) :
    (s.insert .epsilon next).epsilon? = some next :=
  target?_insert_self s .epsilon next

end State

namespace Automaton

variable {a : Automaton} {id : StateId} {s : State}

theorem size_pos_of_state? (h : a.state? id = some s) : 0 < a.size := by
  have hb := (Array.getElem?_eq_some_iff.1 h).1
  exact Nat.zero_lt_of_lt hb

theorem settle_of_epsilon?_eq_none (h : a.state? id = some s) (he : s.epsilon? = none)
    (hops : Nat) : a.settle hops id = some id := by
  unfold settle
  simp only [h, he]

theorem closure?_of_epsilon?_eq_none (h : a.state? id = some s) (he : s.epsilon? = none) :
    a.closure? id = some id :=
  settle_of_epsilon?_eq_none h he a.size

/-- A chain of one epsilon transition. -/
theorem closure?_of_epsilon?_eq_some {next : StateId} {t : State} (h : a.state? id = some s)
    (he : s.epsilon? = some next) (h' : a.state? next = some t) (he' : t.epsilon? = none) :
    a.closure? id = some next := by
  obtain ⟨hops, hs⟩ := Nat.exists_eq_add_one.2 (size_pos_of_state? h)
  rw [closure?, hs, settle]
  simp only [h, he]
  exact settle_of_epsilon?_eq_none h' he' hops

theorem step?_of_epsilon?_eq_none (h : a.state? id = some s) (he : s.epsilon? = none)
    (card : Card) : a.step? id card = s.step? card := by
  simp only [step?, closure?_of_epsilon?_eq_none h he, Option.bind_some, h]

theorem isFinal_eq (h : a.state? id = some s) : a.isFinal id = s.isFinal := by
  simp only [isFinal, h, Option.any_some]

end Automaton
end Meld
