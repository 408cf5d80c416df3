import Mathlib.Data.List.ProdSigma
import Meld.Event
import Meld.Proofs.Pick
import Meld.Proofs.Sound

namespace Meld.Automaton

variable {a : Automaton} {hand : List Card} {len lengths explored : Nat} {c : Choice}
  {todo queue queue' older : List Choice} {seen seen' : Seen} {rest : List (Card × Nat)}
  {s s' : Search}

def Outcome.behind (older : List Choice) : Outcome → Outcome
  | found mask => found mask
  | pending choices seen => pending (choices ++ older) seen

theorem extend_append (rest : List (Card × Nat)) (queue older : List Choice) (seen : Seen) :
    a.extend c rest (queue ++ older) seen = (a.extend c rest queue seen).behind older := by
  induction rest generalizing queue seen with
  | nil => rfl
  | cons e rest ih =>
    obtain ⟨card, i⟩ := e
    rw [extend, extend]
    split
    · exact ih queue seen
    · split
      · rfl
      · split
        · exact ih queue seen
        · exact ih (_ :: queue) _

/-- What a search comes to that keeps all choices in one queue. It takes one choice at a time from
the front and puts those that extend it at the back, until it is successful or the queue is
empty. -/
inductive Drains (a : Automaton) (hand : List Card) : List Choice → Nat → Seen → Search → Prop
  | empty {explored : Nat} {seen : Seen} : Drains a hand [] explored seen ⟨none, explored⟩
  | found {c : Choice} {queue : List Choice} {explored : Nat} {seen : Seen} {mask : Mask} :
      a.extend c (hand.zipIdx.drop c.free) queue.reverse seen = .found mask →
      Drains a hand (c :: queue) explored seen ⟨some mask.positions, explored + 1⟩
  | pop {c : Choice} {queue queue' : List Choice} {explored : Nat} {seen seen' : Seen}
      {s : Search} :
      a.extend c (hand.zipIdx.drop c.free) queue.reverse seen = .pending queue' seen' →
      Drains a hand queue'.reverse (explored + 1) seen' s → Drains a hand (c :: queue) explored seen s

theorem Drains.unique (h : a.Drains hand queue explored seen s)
    (h' : a.Drains hand queue explored seen s') : s = s' := by
  induction h with
  | empty =>
    cases h'
    rfl
  | found he =>
    cases h' with
    | found he' =>
      cases he.symm.trans he'
      rfl
    | pop he' _ => cases he.symm.trans he'
  | pop he _ ih =>
    cases h' with
    | found he' => cases he.symm.trans he'
    | pop he' h' =>
      cases he.symm.trans he'
      exact ih h'

/-- What is left of a search once it has swept a length, with the number of choices taken so far: a
queue to drain, or nothing when it was successful. -/
def Outcome.Leaves (a : Automaton) (hand : List Card) (s : Search) : Outcome × Nat → Prop
  | (found mask, explored) => s = ⟨some mask.positions, explored⟩
  | (pending queue seen, explored) => a.Drains hand queue.reverse explored seen s

/-- A queue is drained length by length: choices that are extended go behind those of their own
length. -/
theorem drains_of_leaves
    (h : Outcome.Leaves a hand s (a.sweep hand.zipIdx todo explored queue seen)) :
    a.Drains hand (todo ++ queue.reverse) explored seen s := by
  induction todo generalizing queue explored seen with
  | nil => exact h
  | cons c todo ih =>
    have behind : a.extend c (hand.zipIdx.drop c.free) (todo ++ queue.reverse).reverse seen =
        (a.extend c (hand.zipIdx.drop c.free) queue seen).behind todo.reverse := by
      rw [List.reverse_append, List.reverse_reverse, extend_append]
    rw [sweep] at h
    split at h
    · next he =>
      rw [he] at behind
      cases h
      exact .found behind
    · next queue' seen' he =>
      rw [he] at behind
      refine .pop behind ?_
      rw [List.reverse_append, List.reverse_reverse]
      exact ih h

theorem Leads.length_le {l : List Nat} {id : StateId} (h : a.Leads hand l id) :
    l.length ≤ hand.length := by
  have hs := (rising_iff_sublist_range.1 ⟨h.rising, h.within⟩).length_le
  rwa [List.length_range] at hs

/-- Searching by lengths leaves nothing in the queue. -/
theorem drains_searchFrom (h : a.Frontier hand len todo [] seen)
    (hl : hand.length < len + lengths) (explored : Nat) :
    a.Drains hand todo explored seen (a.searchFrom hand.zipIdx lengths todo explored seen) := by
  induction lengths generalizing len todo seen explored with
  | zero =>
    cases todo with
    | nil => exact .empty
    | cons c todo =>
      -- a choice has no more positions than there are cards
      have hle := h.head.leads.length_le
      have hc := h.length_todo c List.mem_cons_self
      omega
  | succ lengths ih =>
    have hf := sweep_fits h explored
    suffices left : Outcome.Leaves a hand (a.searchFrom hand.zipIdx (lengths + 1) todo explored seen)
        (a.sweep hand.zipIdx todo explored [] seen) by
      simpa using drains_of_leaves left
    rw [searchFrom]
    cases hs : a.sweep hand.zipIdx todo explored [] seen with
    | mk outcome explored' =>
      rw [hs] at hf
      cases outcome with
      | found mask => rfl
      | pending queue seen' => exact ih hf.turn (by omega) explored'

theorem drains_search (a : Automaton) (short : hand.length ≤ handLimit) :
    a.Drains hand [⟨0, 0, a.start⟩] 0 ∅
      (a.searchFrom hand.zipIdx (hand.length + 1) [⟨0, 0, a.start⟩] 0 ∅) :=
  drains_searchFrom (.initial a short) (by omega) 0

/-- What has been seen: pairs of a state that is not final and of a position, none of them twice. -/
structure Owned (a : Automaton) (hand : List Card) (known : List (StateId × Nat)) (seen : Seen) :
    Prop where
  nodup : known.Nodup
  has : ∀ e ∈ known, a.has e.1 = true
  not_final : ∀ e ∈ known, a.isFinal e.1 = false
  within : ∀ e ∈ known, e.2 < hand.length
  contains_iff : ∀ e, seen.contains e = true ↔ e ∈ known

namespace Owned

variable {known : List (StateId × Nat)}

theorem initial (a : Automaton) (hand : List Card) : a.Owned hand [] ∅ :=
  ⟨.nil, nofun, nofun, nofun, fun e => by simp⟩

theorem insert (h : a.Owned hand known seen) {id : StateId} {i : Nat} (hid : a.has id = true)
    (hf : a.isFinal id = false) (hi : i < hand.length) (new : seen.contains (id, i) = false) :
    a.Owned hand ((id, i) :: known) (seen.insert (id, i)) where
  nodup := List.nodup_cons.2 ⟨mt (h.contains_iff _).2 (by simp [new]), h.nodup⟩
  has := List.forall_mem_cons.2 ⟨hid, h.has⟩
  not_final := List.forall_mem_cons.2 ⟨hf, h.not_final⟩
  within := List.forall_mem_cons.2 ⟨hi, h.within⟩
  contains_iff e := by
    rw [Std.HashSet.contains_insert, Bool.or_eq_true, h.contains_iff, List.mem_cons, beq_iff_eq,
      eq_comm]

/-- Each choice that is put into the queue owns a pair that was not seen before. -/
theorem extend (sound : a.Sound) (h : a.Owned hand known seen)
    (hr : ∀ e ∈ rest, e.2 < hand.length)
    (he : a.extend c rest queue seen = .pending queue' seen') :
    ∃ known', a.Owned hand known' seen' ∧
      queue'.length + known.length = queue.length + known'.length := by
  induction rest generalizing queue seen known with
  | nil =>
    cases he
    exact ⟨known, h, rfl⟩
  | cons e rest ih =>
    obtain ⟨card, i⟩ := e
    obtain ⟨hi, hr⟩ := List.forall_mem_cons.1 hr
    rw [Automaton.extend] at he
    split at he
    · exact ih h hr he
    · next id hs =>
      split at he
      · contradiction
      · next hf =>
        split at he
        · exact ih h hr he
        · next new =>
          have new' := h.insert (sound.has_step hs) (Bool.eq_false_iff.2 hf) hi
            (Bool.eq_false_iff.2 new)
          obtain ⟨known', h', hl⟩ := ih new' hr he
          refine ⟨known', h', ?_⟩
          rw [List.length_cons, List.length_cons] at hl
          omega

theorem length_le (h : a.Owned hand known seen) :
    known.length ≤ a.states.countP (fun s => !s.isFinal) * hand.length := by
  let waiting := (List.range a.size).filter fun i =>
    ((a.states.toList[i]?).map fun s => !s.isFinal).getD false
  have count : waiting.length = a.states.countP fun s => !s.isFinal := by
    rw [← Array.countP_toList, ← filterMap_range_getElem? a.states.toList,
      List.countP_filterMap, List.countP_eq_length_filter, Array.length_toList]
    rfl
  have nodup : (known.map fun e => (e.1.toNat, e.2)).Nodup := by
    refine h.nodup.map fun e f he => ?_
    obtain ⟨hid, hi⟩ := Prod.mk.inj he
    exact Prod.ext (UInt32.toNat_inj.1 hid) hi
  have within : (known.map fun e => (e.1.toNat, e.2)) ⊆ waiting ×ˢ List.range hand.length := by
    intro p hp
    obtain ⟨e, he, rfl⟩ := List.mem_map.1 hp
    rw [List.mem_product, List.mem_filter, List.mem_range, List.mem_range]
    refine ⟨⟨of_decide_eq_true (h.has e he), ?_⟩, h.within e he⟩
    obtain ⟨s, hs⟩ := has_iff.1 (h.has e he)
    have hf := h.not_final e he
    rw [state?, ← Array.getElem?_toList] at hs
    rw [isFinal, state?, ← Array.getElem?_toList, hs] at hf
    rw [hs]
    simpa using hf
  have hle := nodup.length_le_of_subset within
  rwa [List.length_map, List.length_product, List.length_range, count] at hle

end Owned

/-- All choices that were ever in the queue but for the first one own a pair. -/
theorem Drains.explored_le {known : List (StateId × Nat)} (sound : a.Sound)
    (h : a.Drains hand queue explored seen s) (owned : a.Owned hand known seen)
    (count : explored + queue.length = 1 + known.length) :
    s.explored ≤ 1 + a.states.countP (fun s => !s.isFinal) * hand.length := by
  have within (c : Choice) : ∀ e ∈ hand.zipIdx.drop c.free, e.2 < hand.length := by
    intro e he
    have hz := List.mem_zipIdx (List.mem_of_mem_drop he)
    omega
  induction h generalizing known with
  | empty =>
    have hle := owned.length_le
    rw [List.length_nil] at count
    dsimp only
    omega
  | found _ =>
    have hle := owned.length_le
    rw [List.length_cons] at count
    dsimp only
    omega
  | @pop c queue queue' explored seen seen' s he _ ih =>
    obtain ⟨known', owned', hl⟩ := owned.extend sound (within c) he
    rw [List.length_cons] at count
    rw [List.length_reverse] at hl
    refine ih owned' ?_
    rw [List.length_reverse]
    omega

/-- On a sound graph a search comes to an end, and it has taken no more choices from its queue than
one for each state that is not final and each position, and the first one. What it puts on record is
the phase, whether it was successful, and their number. -/
theorem search_ends (sound : a.checkSound = .ok ()) (hand : List Card) :
    ∃ s, (∀ s', a.Drains (hand.take handLimit) [⟨0, 0, a.start⟩] 0 ∅ s' ↔ s' = s) ∧
      s.explored ≤ 1 + a.states.countP (fun s => !s.isFinal) * min hand.length handLimit ∧
      a.search? hand =
        (if a.phase.minCards < UInt64.size then
          .ok (if (hand.take handLimit).length < a.phase.minCards then none else some s)
        else .error .overflow) ∧
      a.searchEvents hand =
        (if handLimit < hand.length then [.handCut hand.length] else []) ++
          (if a.phase.minCards ≤ (hand.take handLimit).length then
            [.searched a.phase s.positions?.isSome s.explored]
          else []) := by
  have short : (hand.take handLimit).length ≤ handLimit := List.length_take_le handLimit hand
  have drains := drains_search a short
  have made := search?_eq a hand
  generalize a.searchFrom _ _ _ _ _ = s at drains made
  refine ⟨s, fun s' => ⟨fun h => h.unique drains, ?_⟩, ?_, made, ?_⟩
  · rintro rfl
    exact drains
  · have hle := drains.explored_le (checkSound_eq_ok_iff.1 sound) (.initial a _) rfl
    rwa [List.length_take, Nat.min_comm] at hle
  · rw [searchEvents, made]
    congr 1
    by_cases enough : a.phase.minCards ≤ (hand.take handLimit).length
    · have fits : a.phase.minCards < UInt64.size := (enough.trans short).trans_lt (by decide)
      rw [if_pos fits, if_neg (Nat.not_lt_of_le enough), if_pos enough]
    · rw [if_pos (Nat.lt_of_not_le enough), if_neg enough]
      by_cases fits : a.phase.minCards < UInt64.size
      · rw [if_pos fits]
      · rw [if_neg fits]

/-- Takes any cards, and waits for more of them for ever. -/
def idler : Automaton := ⟨.sized [⟨.set, 2⟩], #[⟨false, [⟨.otherwise, 0⟩]⟩], 0, []⟩

theorem drains_idler : idler.Drains [Card.wild, Card.skip] [⟨0, 0, 0⟩] 0 ∅ ⟨none, 3⟩ := by
  have stays (card : Card) : idler.step? 0 card = some 0 := rfl
  have waits : idler.isFinal 0 = false := rfl
  let seen : Seen := (∅ : Seen).insert (0, 0) |>.insert (0, 1)
  have start : idler.extend ⟨0, 0, 0⟩ [(Card.wild, 0), (Card.skip, 1)] [] ∅ =
      .pending [⟨Mask.insert 0 1, 2, 0⟩, ⟨Mask.insert 0 0, 1, 0⟩] seen := by
    simp [seen, extend, stays, waits]
  -- the second card leads from the first one to what it has led to by itself
  have first : idler.extend ⟨Mask.insert 0 0, 1, 0⟩ [(Card.skip, 1)] [⟨Mask.insert 0 1, 2, 0⟩]
      seen = .pending [⟨Mask.insert 0 1, 2, 0⟩] seen := by
    simp [seen, extend, stays, waits]
  exact .pop start (.pop first (.pop rfl .empty))

/-- A graph that waits for ever takes as many choices as it can, and puts their number on record. -/
theorem search_ends_idler :
    idler.checkSound = .ok () ∧
    ∃ s, (∀ s', idler.Drains [Card.wild, Card.skip] [⟨0, 0, 0⟩] 0 ∅ s' ↔ s' = s) ∧
      s.explored = 1 + idler.states.countP (fun s => !s.isFinal) * 2 ∧
      idler.search? [Card.wild, Card.skip] = .ok (some ⟨none, 3⟩) ∧
      idler.searchEvents [Card.wild, Card.skip] = [.searched (.sized [⟨.set, 2⟩]) false 3] := by
  have sound : idler.checkSound = .ok () := by decide
  obtain ⟨s, unique, -, made, recorded⟩ := search_ends sound [Card.wild, Card.skip]
  have hs := (unique _).1 drains_idler
  subst hs
  exact ⟨sound, _, unique, rfl, made, recorded⟩

end Meld.Automaton
