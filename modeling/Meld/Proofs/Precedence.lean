import Mathlib.Data.List.Induction
import Mathlib.Data.List.Nodup
import Meld.Proofs.Resolution

namespace Meld

theorem eraseDups_concat {α : Type} [DecidableEq α] (xs : List α) (x : α) :
    (xs ++ [x]).eraseDups = if x ∈ xs then xs.eraseDups else xs.eraseDups ++ [x] := by
  rw [List.eraseDups_append]
  by_cases h : x ∈ xs <;> simp [List.removeAll, List.eraseDups_cons, h]

namespace Guard

variable {g h k : Guard} {c : Card}

theorem precedes_asymm (gh : g.precedes h = true) : h.precedes g = false := by
  rw [Bool.eq_false_iff]
  intro hg
  exact Bool.eq_false_iff.1 g.precedes_irrefl (precedes_trans gh hg)

theorem not_precedes_trans (gh : g.precedes h = false) (hk : h.precedes k = false) :
    g.precedes k = false := by
  simp only [precedes, Bool.or_eq_false_iff, Bool.and_eq_false_imp, decide_eq_true_eq,
    decide_eq_false_iff_not] at *
  omega

/-- The guards that fit a card, in the order of precedence. -/
def ladder (c : Card) : List Guard := [.card c, .rank c.rank, .color c.color, .otherwise]

theorem mem_ladder_iff : g ∈ ladder c ↔ g.fits c = true := by
  cases g <;> simp [ladder, fits]

theorem ladder_pairwise (c : Card) : (ladder c).Pairwise fun g h => g.precedes h = true := by
  simp [ladder, precedes, index]

end Guard

namespace State

variable {s : State} {ts calls : List Transition} {t u : Transition} {g : Guard} {card : Card}
  {target next : StateId}

/-- The strongest transition stands first, or else it comes before the first one. -/
theorem strongest?_cons_cases (h : strongest? (u :: ts) = some t) :
    (t = u ∧ ∀ v, strongest? ts = some v → v.guard.precedes u.guard = false) ∨
      strongest? ts = some t ∧ t.guard.precedes u.guard = true := by
  rw [strongest?] at h
  cases hs : strongest? ts with
  | none =>
    rw [hs] at h
    exact .inl ⟨(Option.some.inj h).symm, by simp⟩
  | some v =>
    simp only [hs] at h
    split at h
    · next hv =>
      obtain rfl := Option.some.inj h
      exact .inr ⟨rfl, hv⟩
    · next hv =>
      obtain rfl := Option.some.inj h
      refine .inl ⟨rfl, fun w hw => ?_⟩
      obtain rfl := Option.some.inj hw
      exact Bool.eq_false_iff.2 hv

theorem not_precedes_of_strongest? (h : strongest? ts = some t) (hu : u ∈ ts) :
    u.guard.precedes t.guard = false := by
  induction ts generalizing t with
  | nil => exact absurd hu List.not_mem_nil
  | cons v ts ih =>
    rcases strongest?_cons_cases h with ⟨rfl, hv⟩ | ⟨hs, hp⟩
    · rcases List.mem_cons.1 hu with rfl | hu
      · exact u.guard.precedes_irrefl
      · cases hs : strongest? ts with
        | none => exact absurd (strongest?_eq_none_iff.1 hs ▸ hu) List.not_mem_nil
        | some w => exact Guard.not_precedes_trans (ih hs hu) (hv w hs)
    · rcases List.mem_cons.1 hu with rfl | hu
      · exact Guard.precedes_asymm hp
      · exact ih hs hu

/-- Of several transitions with its guard, the strongest one is the first. -/
theorem find?_of_strongest? (h : strongest? ts = some t) :
    ts.find? (·.guard = t.guard) = some t := by
  induction ts with
  | nil => contradiction
  | cons u ts ih =>
    rcases strongest?_cons_cases h with ⟨rfl, -⟩ | ⟨hs, hp⟩
    · exact List.find?_cons_of_pos (decide_eq_true rfl)
    · have ne : u.guard ≠ t.guard := by
        intro he
        rw [he, Guard.precedes_irrefl] at hp
        contradiction
      rw [List.find?_cons_of_neg (by simpa using ne)]
      exact ih hs

theorem target?_eq_none_iff : s.target? g = none ↔ ∀ t ∈ s.transitions, t.guard ≠ g := by
  simp [target?]

/-- A guard that fits a card decides where it leads, unless one that precedes has a target too. -/
theorem exists_target?_of_step? (h : s.step? card = some next) :
    ∃ g, g.fits card = true ∧ s.target? g = some next ∧
      ∀ g', g'.fits card = true → g'.precedes g = true → s.target? g' = none := by
  obtain ⟨t, ht, rfl⟩ := Option.map_eq_some_iff.1 h
  obtain ⟨-, fits⟩ := List.mem_filter.1 (mem_of_strongest?_eq_some ht)
  refine ⟨t.guard, fits, ?_, fun g' fits' hp => ?_⟩
  · -- what has this guard fits the card as well
    have same (u : Transition) : u.guard.fits card = true ∧ decide (u.guard = t.guard) = true ↔
        u.guard = t.guard := by
      rw [decide_eq_true_eq, and_iff_right_iff_imp]
      exact fun hu => hu ▸ fits
    have first := find?_of_strongest? ht
    simp only [List.find?_filter, same] at first
    rw [target?, first, Option.map_some]
  · rw [target?_eq_none_iff]
    rintro u hu rfl
    have hn := not_precedes_of_strongest? ht (List.mem_filter.2 ⟨hu, fits'⟩)
    exact Bool.eq_false_iff.1 hn hp

theorem target?_eq_none_of_step? (h : s.step? card = none) (fits : g.fits card = true) :
    s.target? g = none := by
  rw [target?_eq_none_iff]
  rintro t ht rfl
  obtain ⟨next, hn⟩ := step?_isSome_of_mem ht fits
  rw [hn] at h
  contradiction

/-- The first guard of the ladder that has a target decides where a card leads. -/
theorem step?_eq_findSome? (s : State) (card : Card) :
    s.step? card = (Guard.ladder card).findSome? s.target? := by
  cases h : s.step? card with
  | none =>
    rw [eq_comm, List.findSome?_eq_none_iff]
    exact fun g hg => target?_eq_none_of_step? h (Guard.mem_ladder_iff.1 hg)
  | some next =>
    obtain ⟨g, fits, hg, none_before⟩ := exists_target?_of_step? h
    obtain ⟨before, later, split⟩ := List.append_of_mem (Guard.mem_ladder_iff.2 fits)
    have pairs := Guard.ladder_pairwise card
    rw [split, List.pairwise_append] at pairs
    rw [eq_comm, List.findSome?_eq_some_iff]
    refine ⟨before, g, later, split, hg, fun g' hg' => ?_⟩
    have fits' : g' ∈ Guard.ladder card := split ▸ List.mem_append_left _ hg'
    exact none_before g' (Guard.mem_ladder_iff.1 fits') (pairs.2.2 g' hg' g List.mem_cons_self)

def insertAll (s : State) (calls : List Transition) : State :=
  calls.foldl (fun s t => s.insert t.guard t.target) s

def lastTarget? (calls : List Transition) (guard : Guard) : Option StateId :=
  (calls.reverse.find? (·.guard = guard)).map (·.target)

theorem insertAll_concat (s : State) (calls : List Transition) (t : Transition) :
    s.insertAll (calls ++ [t]) = (s.insertAll calls).insert t.guard t.target := by
  rw [insertAll, List.foldl_append]
  rfl

theorem lastTarget?_concat (calls : List Transition) (t : Transition) (g : Guard) :
    lastTarget? (calls ++ [t]) g = if t.guard = g then some t.target else lastTarget? calls g := by
  rw [lastTarget?, List.reverse_concat, List.find?_cons]
  split <;> simp_all [lastTarget?]

theorem guards_insert (s : State) (g : Guard) (target : StateId) :
    (s.insert g target).transitions.map (·.guard) =
      if g ∈ s.transitions.map (·.guard) then s.transitions.map (·.guard)
      else s.transitions.map (·.guard) ++ [g] := by
  unfold insert
  induction s.transitions with
  | nil => rfl
  | cons t ts ih =>
    rw [place]
    by_cases ht : t.guard = g
    · simp [ht]
    · have mem : g ∈ (t :: ts).map (·.guard) ↔ g ∈ ts.map (·.guard) :=
        List.mem_cons.trans (or_iff_right (Ne.symm ht))
      rw [if_neg ht, List.map_cons, ih]
      simp only [mem]
      split <;> rfl

theorem guards_insert_nodup (h : (s.transitions.map (·.guard)).Nodup) (g : Guard)
    (target : StateId) : ((s.insert g target).transitions.map (·.guard)).Nodup := by
  rw [guards_insert]
  split
  · exact h
  · next hg => exact (List.perm_append_singleton ..).nodup_iff.2 (List.nodup_cons.2 ⟨hg, h⟩)

/-- In a list without duplicates each transition is the one of its guard. -/
theorem target?_of_mem (h : (s.transitions.map (·.guard)).Nodup) (ht : t ∈ s.transitions) :
    s.target? t.guard = some t.target := by
  cases hf : s.transitions.find? (·.guard = t.guard) with
  | none => simpa using List.find?_eq_none.1 hf t ht
  | some u =>
    have hu := List.mem_of_find?_eq_some hf
    have he : u.guard = t.guard := by simpa using List.find?_some hf
    rw [target?, hf, Option.map_some, List.inj_on_of_nodup_map h hu ht he]

theorem target?_insertAll (calls : List Transition) (g : Guard) :
    (plain.insertAll calls).target? g = lastTarget? calls g := by
  induction calls using List.reverseRecOn with
  | nil => rfl
  | append_singleton calls t ih =>
    rw [insertAll_concat, lastTarget?_concat]
    by_cases ht : t.guard = g
    · rw [if_pos ht, ← ht, target?_insert_self]
    · rw [if_neg ht, target?_insert_of_ne _ _ (Ne.symm ht), ih]

theorem guards_insertAll (calls : List Transition) :
    (plain.insertAll calls).transitions.map (·.guard) = (calls.map (·.guard)).eraseDups := by
  induction calls using List.reverseRecOn with
  | nil => rfl
  | append_singleton calls t ih =>
    rw [insertAll_concat, guards_insert, ih, List.map_append, List.map_singleton,
      eraseDups_concat]
    simp only [List.mem_eraseDups]

theorem guards_insertAll_nodup (calls : List Transition) :
    ((plain.insertAll calls).transitions.map (·.guard)).Nodup := by
  induction calls using List.reverseRecOn with
  | nil => exact List.nodup_nil
  | append_singleton calls t ih =>
    rw [insertAll_concat]
    exact guards_insert_nodup ih t.guard t.target

theorem step?_insertAll (calls : List Transition) (card : Card) :
    (plain.insertAll calls).step? card =
      (Guard.ladder card).findSome? (lastTarget? calls) := by
  rw [step?_eq_findSome?, funext (target?_insertAll calls)]

/-- A state that is filled by insertions holds each guard once, where it was first inserted, with
the target that it was given last. A card is led by its own guard, else by that of its rank, else
by that of its color, and else by the one that fits all cards, so the order of insertions does not
matter. Of transitions that share a guard, as only a snapshot has them, the first one counts. -/
theorem insertAll_keeps_last :
    (∀ calls : List Transition,
      ((plain.insertAll calls).transitions.map (·.guard)).Nodup ∧
      (plain.insertAll calls).transitions.map (·.guard) = (calls.map (·.guard)).eraseDups ∧
      (∀ t ∈ (plain.insertAll calls).transitions, lastTarget? calls t.guard = some t.target) ∧
      (plain.insertAll calls).epsilon? = lastTarget? calls .epsilon ∧
      ∀ card, (plain.insertAll calls).step? card =
        [.card card, .rank card.rank, .color card.color, .otherwise].findSome?
          (lastTarget? calls)) ∧
    (∀ calls calls' : List Transition, (∀ g, lastTarget? calls g = lastTarget? calls' g) →
      (plain.insertAll calls).epsilon? = (plain.insertAll calls').epsilon? ∧
      ∀ card, (plain.insertAll calls).step? card = (plain.insertAll calls').step? card) ∧
    ∀ s : State,
      s.epsilon? = (s.transitions.find? (·.guard = .epsilon)).map (·.target) ∧
      ∀ card, s.step? card =
        [.card card, .rank card.rank, .color card.color, .otherwise].findSome? fun g =>
          (s.transitions.find? (·.guard = g)).map (·.target) := by
  refine ⟨fun calls => ⟨guards_insertAll_nodup calls, guards_insertAll calls, fun t ht => ?_,
    target?_insertAll calls .epsilon, step?_insertAll calls⟩, fun calls calls' same => ⟨?_, ?_⟩,
    fun s => ⟨rfl, step?_eq_findSome? s⟩⟩
  · rw [← target?_insertAll, target?_of_mem (guards_insertAll_nodup calls) ht]
  · rw [epsilon?, target?_insertAll, same, ← target?_insertAll, ← epsilon?]
  · intro card
    rw [step?_insertAll, step?_insertAll, funext same]

/-- The rank is given two targets in one order, and one before all else in the other. -/
theorem insertAll_keeps_last_five :
    (∀ g, lastTarget? [⟨.otherwise, 4⟩, ⟨.rank (.number 4), 9⟩, ⟨.rank (.number 4), 2⟩] g =
      lastTarget? [⟨.rank (.number 4), 2⟩, ⟨.otherwise, 4⟩] g) ∧
    (∀ card, (plain.insertAll
        [⟨.otherwise, 4⟩, ⟨.rank (.number 4), 9⟩, ⟨.rank (.number 4), 2⟩]).step? card =
      (plain.insertAll [⟨.rank (.number 4), 2⟩, ⟨.otherwise, 4⟩]).step? card) ∧
    (plain.insertAll [⟨.rank (.number 4), 2⟩, ⟨.otherwise, 4⟩]).step?
      ⟨.red, .number 4, by decide, by decide⟩ = some 2 := by
  have same (g : Guard) :
      lastTarget? [⟨.otherwise, 4⟩, ⟨.rank (.number 4), 9⟩, ⟨.rank (.number 4), 2⟩] g =
        lastTarget? [⟨.rank (.number 4), 2⟩, ⟨.otherwise, 4⟩] g := by
    by_cases rank : .rank (.number 4) = g
    · subst rank
      rfl
    · by_cases other : .otherwise = g <;> simp [lastTarget?, rank, other]
  obtain ⟨filled, alike, -⟩ := insertAll_keeps_last
  obtain ⟨-, -, -, -, step⟩ := filled [⟨.rank (.number 4), 2⟩, ⟨.otherwise, 4⟩]
  exact ⟨same, (alike _ _ same).2, step _⟩

end State
end Meld
