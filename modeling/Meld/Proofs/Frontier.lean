import Meld.Proofs.Selection

namespace Meld.Automaton

namespace Mask

variable {mask : Mask} {i j : Nat}

theorem mem_positions_iff : i ∈ mask.positions ↔ i < handLimit ∧ mask.getLsbD i = true := by
  rw [positions, List.mem_filter, List.mem_range, decide_eq_true_iff, BitVec.and_twoPow]
  refine and_congr_right fun hi => ?_
  split
  · next chosen =>
    have alone : (BitVec.twoPow handLimit i).getLsbD i = true := by
      simp only [BitVec.getLsbD_twoPow, hi, decide_true, Bool.and_true]
    refine iff_of_true (fun none => ?_) chosen
    rw [none] at alone
    exact absurd alone (by simp)
  · next left => exact iff_of_false (not_not_intro rfl) left

theorem rising_positions (mask : Mask) : mask.positions.Pairwise (· < ·) :=
  List.pairwise_lt_range.filter _

theorem positions_zero : positions 0 = [] := by decide

theorem getLsbD_insert (hi : i < handLimit) :
    (mask.insert i).getLsbD j = (mask.getLsbD j || j == i) := by
  rw [insert, BitVec.getLsbD_or, BitVec.getLsbD_twoPow, decide_eq_true hi, Bool.true_and]
  simp only [eq_comm, beq_eq_decide]

/-- A bit above all others adds its position at the end. -/
theorem positions_insert (hi : i < handLimit) (above : ∀ j ∈ mask.positions, j < i) :
    (mask.insert i).positions = mask.positions ++ [i] := by
  refine (rising_positions _).eq_of_mem_iff ?_ fun j => ?_
  · rw [List.pairwise_append]
    refine ⟨rising_positions mask, List.pairwise_singleton .., fun j hj k hk => ?_⟩
    exact List.mem_singleton.1 hk ▸ above j hj
  · rw [List.mem_append, List.mem_singleton, mem_positions_iff, mem_positions_iff,
      getLsbD_insert hi, Bool.or_eq_true, beq_iff_eq, and_or_left]
    exact or_congr_right (and_iff_right_of_imp fun he => he ▸ hi)

end Mask

namespace Choice

def positions (c : Choice) : List Nat := c.mask.positions

theorem positions_none (free : Nat) (id : StateId) : positions ⟨0, free, id⟩ = [] :=
  Mask.positions_zero

def skip (c : Choice) : Choice := { c with free := c.free + 1 }

def add (c : Choice) (id : StateId) : Choice := ⟨c.mask.insert c.free, c.free + 1, id⟩

def CanBecome (c : Choice) (l : List Nat) : Prop :=
  ∃ i r, l = c.positions ++ i :: r ∧ c.free ≤ i

end Choice

/-- A choice of positions that are taken but, if there are any, not accepted yet. -/
structure Open (a : Automaton) (hand : List Card) (c : Choice) : Prop where
  leads : a.Leads hand c.positions c.state
  lt_free : ∀ i ∈ c.positions, i < c.free
  not_final : c.positions = [] ∨ a.isFinal c.state = false

theorem Open.positions_add {a : Automaton} {hand : List Card} {c : Choice} {card : Card}
    (h : a.Open hand c) (short : hand.length ≤ handLimit) (hc : hand[c.free]? = some card)
    (id : StateId) : (c.add id).positions = c.positions ++ [c.free] :=
  Mask.positions_insert ((List.getElem?_eq_some_iff.1 hc).1.trans_le short) h.lt_free

def Before (l : List Nat) (todo : List Choice) : Prop :=
  ∀ c ∈ todo, ∀ i, c.free ≤ i → Earlier l (c.positions ++ [i])

/-- Positions that end with the given one have led to the state, and the choices that are left are
extended to later ones only. -/
def Reached (a : Automaton) (hand : List Card) (len : Nat) (todo : List Choice) (id : StateId)
    (i : Nat) : Prop :=
  ∃ l, a.Leads hand (l ++ [i]) id ∧ l.length ≤ len ∧ Before (l ++ [i]) todo

/-- What holds while choices of `len` positions are extended in turn: those in `todo` are left, and
`queue` holds the extensions, the newest first. The positions to be picked are never lost. -/
structure Frontier (a : Automaton) (hand : List Card) (len : Nat) (todo queue : List Choice)
    (seen : Seen) : Prop where
  short : hand.length ≤ handLimit
  isOpen : ∀ c ∈ todo ++ queue, a.Open hand c
  length_todo : ∀ c ∈ todo, c.positions.length = len
  length_queue : ∀ c ∈ queue, c.positions.length = len + 1
  sorted_todo : todo.Pairwise fun c d => Earlier c.positions d.positions
  sorted_queue : queue.Pairwise fun c d => Earlier d.positions c.positions
  queue_before : ∀ c ∈ queue, Before c.positions todo
  seen_reached : ∀ id i, seen.contains (id, i) = true → a.Reached hand len todo id i
  pending : ∀ l, a.PicksFirst hand l → ∃ c ∈ todo ++ queue, c.CanBecome l

variable {a : Automaton} {hand : List Card} {len : Nat} {c : Choice} {todo queue : List Choice}
  {seen : Seen} {l r : List Nat} {id : StateId} {card : Card}

theorem Open.skip (h : a.Open hand c) : a.Open hand c.skip :=
  ⟨h.leads, fun i hi => Nat.lt_succ_of_lt (h.lt_free i hi), h.not_final⟩

theorem Open.add (h : a.Open hand c) (short : hand.length ≤ handLimit)
    (hc : hand[c.free]? = some card) (hs : a.step? c.state card = some id)
    (hf : a.isFinal id = false) : a.Open hand (c.add id) where
  leads := h.positions_add short hc id ▸ h.leads.snoc h.lt_free hc hs
  lt_free i hi := by
    rw [h.positions_add short hc, List.mem_append, List.mem_singleton] at hi
    rcases hi with hi | rfl
    · exact Nat.lt_succ_of_lt (h.lt_free i hi)
    · exact Nat.lt_succ_self _
  not_final := .inr hf

theorem Before.skip (h : Before l (c :: todo)) : Before l (c.skip :: todo) := by
  intro d hd i hi
  rcases List.mem_cons.1 hd with rfl | hd
  · exact h c List.mem_cons_self i (Nat.le_of_succ_le hi)
  · exact h d (List.mem_cons_of_mem c hd) i hi

theorem Before.tail (h : Before l (c :: todo)) : Before l todo :=
  fun d hd => h d (List.mem_cons_of_mem c hd)

theorem Reached.skip {i : Nat} (h : a.Reached hand len (c :: todo) id i) :
    a.Reached hand len (c.skip :: todo) id i := by
  obtain ⟨l, hl, hle, hb⟩ := h
  exact ⟨l, hl, hle, hb.skip⟩

theorem Reached.tail {i : Nat} (h : a.Reached hand len (c :: todo) id i) :
    a.Reached hand len todo id i := by
  obtain ⟨l, hl, hle, hb⟩ := h
  exact ⟨l, hl, hle, hb.tail⟩

/-- Choices of more positions all come later. -/
theorem Reached.turn {i : Nat} (h : a.Reached hand len todo id i)
    (longer : ∀ d ∈ queue, d.positions.length = len + 1) :
    a.Reached hand (len + 1) queue id i := by
  obtain ⟨l, hl, hle, -⟩ := h
  refine ⟨l, hl, Nat.le_succ_of_le hle, fun d hd j _ => List.Shortlex.of_length_lt ?_⟩
  have hd := longer d hd
  simp only [List.length_append, List.length_singleton]
  omega

namespace Frontier

theorem initial (a : Automaton) {hand : List Card} (short : hand.length ≤ handLimit) :
    a.Frontier hand 0 [⟨0, 0, a.start⟩] [] ∅ where
  short := short
  isOpen d hd := by
    obtain rfl := List.mem_singleton.1 hd
    have none := Choice.positions_none 0 a.start
    exact ⟨none ▸ .nil, none ▸ nofun, .inl none⟩
  length_todo d hd := by
    obtain rfl := List.mem_singleton.1 hd
    exact congrArg List.length (Choice.positions_none 0 a.start)
  length_queue := nofun
  sorted_todo := List.pairwise_singleton ..
  sorted_queue := .nil
  queue_before := nofun
  seen_reached id i h := by simp at h
  pending l h := by
    obtain ⟨i, r, rfl⟩ := List.exists_cons_of_ne_nil h.1.ne_nil
    refine ⟨_, List.mem_cons_self, i, r, ?_, Nat.zero_le i⟩
    rw [Choice.positions_none, List.nil_append]

theorem head (h : a.Frontier hand len (c :: todo) queue seen) : a.Open hand c :=
  h.isOpen c List.mem_cons_self

theorem added_before (h : a.Frontier hand len (c :: todo) queue seen) :
    Before (c.positions ++ [c.free]) (c.skip :: todo) := by
  intro d hd i hi
  rcases List.mem_cons.1 hd with rfl | hd
  · exact .snoc (Nat.lt_of_succ_le hi)
  · exact ((List.pairwise_cons.1 h.sorted_todo).1 d hd).append (Nat.le_refl _)

/-- What could be picked first begins with the position that is tried, or else comes later. -/
theorem first_eq_or_earlier (h : a.Frontier hand len (c :: todo) queue seen)
    (hl : a.PicksFirst hand l) :
    (∃ r, l = c.positions ++ c.free :: r) ∨ Earlier (c.positions ++ [c.free]) l := by
  obtain ⟨d, hd, i, r, rfl, hi⟩ := h.pending l hl
  have hc := h.length_todo c List.mem_cons_self
  rcases List.mem_append.1 hd with hd | hd
  · rcases List.mem_cons.1 hd with rfl | hd
    · rcases Nat.eq_or_lt_of_le hi with rfl | hlt
      · exact .inl ⟨r, rfl⟩
      · refine .inr ?_
        have hs := (Earlier.snoc (l := d.positions) hlt).append (u := []) (v := r) (Nat.zero_le _)
        rwa [List.append_nil, ← List.append_cons] at hs
    · exact .inr (((List.pairwise_cons.1 h.sorted_todo).1 d hd).append (by simp))
  · have hq := h.length_queue d hd
    refine .inr (List.Shortlex.of_length_lt ?_)
    simp only [List.length_append, List.length_cons, List.length_nil]
    omega

/-- Once a position has been tried, what could be picked from it on has to be in the queue. -/
theorem advance {queue' : List Choice} {seen' : Seen}
    (h : a.Frontier hand len (c :: todo) queue seen) (grown : queue ⊆ queue')
    (isOpen : ∀ d ∈ queue', a.Open hand d) (length : ∀ d ∈ queue', d.positions.length = len + 1)
    (sorted : queue'.Pairwise fun d e => Earlier e.positions d.positions)
    (before : ∀ d ∈ queue', Before d.positions (c.skip :: todo))
    (reached : ∀ id i, seen'.contains (id, i) = true → a.Reached hand len (c.skip :: todo) id i)
    (tried : ∀ r, a.PicksFirst hand (c.positions ++ c.free :: r) →
      ∃ d ∈ queue', d.CanBecome (c.positions ++ c.free :: r)) :
    a.Frontier hand len (c.skip :: todo) queue' seen' where
  short := h.short
  isOpen d hd := by
    rcases List.mem_append.1 hd with hd | hd
    · rcases List.mem_cons.1 hd with rfl | hd
      · exact h.head.skip
      · exact h.isOpen d (List.mem_cons_of_mem c (List.mem_append_left _ hd))
    · exact isOpen d hd
  length_todo d hd := by
    rcases List.mem_cons.1 hd with rfl | hd
    · exact h.length_todo c List.mem_cons_self
    · exact h.length_todo d (List.mem_cons_of_mem c hd)
  length_queue := length
  sorted_todo := List.pairwise_cons.2 (List.pairwise_cons.1 h.sorted_todo)
  sorted_queue := sorted
  queue_before := before
  seen_reached := reached
  pending l hl := by
    obtain ⟨d, hd, i, r, rfl, hi⟩ := h.pending l hl
    rcases List.mem_append.1 hd with hd | hd
    · rcases List.mem_cons.1 hd with rfl | hd
      · rcases Nat.eq_or_lt_of_le hi with rfl | hlt
        · obtain ⟨e, he, hb⟩ := tried r hl
          exact ⟨e, List.mem_append_right _ he, hb⟩
        · exact ⟨d.skip, List.mem_cons_self, i, r, rfl, hlt⟩
      · exact ⟨d, List.mem_append_left _ (List.mem_cons_of_mem _ hd), i, r, rfl, hi⟩
    · exact ⟨d, List.mem_append_right _ (grown hd), i, r, rfl, hi⟩

/-- A position is tried in vain if nothing to be picked goes on with it. -/
theorem skip (h : a.Frontier hand len (c :: todo) queue seen)
    (vain : ∀ r, ¬a.PicksFirst hand (c.positions ++ c.free :: r)) :
    a.Frontier hand len (c.skip :: todo) queue seen := by
  refine h.advance (List.Subset.refl _) ?_ h.length_queue h.sorted_queue ?_ ?_ ?_
  · exact fun d hd => h.isOpen d (List.mem_append_right _ hd)
  · exact fun d hd => (h.queue_before d hd).skip
  · exact fun id i hi => (h.seen_reached id i hi).skip
  · exact fun r hl => absurd hl (vain r)

theorem skip_of_refused (h : a.Frontier hand len (c :: todo) queue seen)
    (hc : hand[c.free]? = some card) (hs : a.step? c.state card = none) :
    a.Frontier hand len (c.skip :: todo) queue seen := by
  apply h.skip
  intro r hl
  obtain ⟨-, id, hi, -⟩ := picks_iff.1 hl.1
  obtain ⟨card', mid, hc', hs'⟩ := h.head.leads.exists_step hi
  rw [hc] at hc'
  rw [← Option.some.inj hc', hs] at hs'
  contradiction

/-- An earlier choice led to the same state by the same last position. What it is extended to is
found before. -/
theorem skip_of_seen (h : a.Frontier hand len (c :: todo) queue seen)
    (hc : hand[c.free]? = some card) (hs : a.step? c.state card = some id)
    (hi : seen.contains (id, c.free) = true) :
    a.Frontier hand len (c.skip :: todo) queue seen := by
  apply h.skip
  intro r hl
  obtain ⟨l, hlead, -, hb⟩ := h.seen_reached id c.free hi
  have hn := h.head.leads.snoc h.head.lt_free hc hs
  have hlt : Earlier (l ++ [c.free] ++ r) (c.positions ++ [c.free] ++ r) :=
    (hb c List.mem_cons_self c.free (Nat.le_refl _)).append (Nat.le_refl _)
  rw [List.append_cons] at hl
  -- with the earlier positions in front, what follows would be picked before what is picked first
  obtain ⟨-, id', hi', hf⟩ := picks_iff.1 hl.1
  have hp : a.Picks hand (l ++ [c.free] ++ r) :=
    picks_iff.2 ⟨by simp, id', hn.exchange hlead hi', hf⟩
  rcases hl.2 _ hp with he | he
  · rw [he] at hlt
    exact hlt.asymm hlt
  · exact hlt.asymm he

/-- The extended choice is put aside until all choices of its length have been extended. -/
theorem push (h : a.Frontier hand len (c :: todo) queue seen)
    (hc : hand[c.free]? = some card) (hs : a.step? c.state card = some id)
    (hf : a.isFinal id = false) :
    a.Frontier hand len (c.skip :: todo) (c.add id :: queue) (seen.insert (id, c.free)) := by
  have added := h.head.positions_add h.short hc id
  have hn := h.head.leads.snoc h.head.lt_free hc hs
  have hlen := h.length_todo c List.mem_cons_self
  refine h.advance (List.subset_cons_self _ _) ?_ ?_ ?_ ?_ ?_ ?_
  · refine List.forall_mem_cons.2 ⟨h.head.add h.short hc hs hf, fun d hd => ?_⟩
    exact h.isOpen d (List.mem_append_right _ hd)
  · refine List.forall_mem_cons.2 ⟨?_, h.length_queue⟩
    rw [added, List.length_append, hlen, List.length_singleton]
  · refine List.pairwise_cons.2 ⟨fun d hd => ?_, h.sorted_queue⟩
    rw [added]
    exact h.queue_before d hd c List.mem_cons_self c.free (Nat.le_refl _)
  · refine List.forall_mem_cons.2 ⟨?_, fun d hd => (h.queue_before d hd).skip⟩
    rw [added]
    exact h.added_before
  · intro id' i hi
    rw [Std.HashSet.contains_insert, Bool.or_eq_true, beq_iff_eq, Prod.mk.injEq] at hi
    rcases hi with ⟨rfl, rfl⟩ | hi
    · exact ⟨c.positions, hn, Nat.le_of_eq hlen, h.added_before⟩
    · exact (h.seen_reached id' i hi).skip
  · -- a state that is not final is not where the picked positions end
    intro r hl
    obtain ⟨-, id', hi, hf'⟩ := picks_iff.1 hl.1
    cases r with
    | nil =>
      rw [hn.unique hi, hf'] at hf
      contradiction
    | cons i r =>
      have hp := (List.pairwise_append.1 hl.1.rising).2.1
      have hlt : c.free < i := (List.pairwise_cons.1 hp).1 i List.mem_cons_self
      refine ⟨c.add id, List.mem_cons_self, i, r, ?_, hlt⟩
      rw [added, ← List.append_cons]

/-- The first extension that is accepted is the one to be picked. -/
theorem found (h : a.Frontier hand len (c :: todo) queue seen)
    (hc : hand[c.free]? = some card) (hs : a.step? c.state card = some id)
    (hf : a.isFinal id = true) : a.PicksFirst hand (c.positions ++ [c.free]) := by
  have hp : a.Picks hand (c.positions ++ [c.free]) :=
    picks_iff.2 ⟨by simp, id, h.head.leads.snoc h.head.lt_free hc hs, hf⟩
  obtain ⟨l, hl⟩ := exists_picksFirst hp
  have hle : l = c.positions ++ [c.free] ∨ Earlier (c.positions ++ [c.free]) l := by
    rcases h.first_eq_or_earlier hl with ⟨r, rfl⟩ | he
    · rw [List.append_cons]
      exact Earlier.of_prefix (List.prefix_append ..)
    · exact .inr he
  rcases hle with rfl | he
  · exact hl
  · rcases hl.2 _ hp with heq | he'
    · rw [← heq] at hl
      exact hl
    · exact absurd he' he.asymm

/-- A choice with no free position left has been extended in all ways. -/
theorem done (h : a.Frontier hand len (c :: todo) queue seen) (hc : hand.length ≤ c.free) :
    a.Frontier hand len todo queue seen where
  short := h.short
  isOpen d hd := h.isOpen d (List.mem_cons_of_mem c hd)
  length_todo d hd := h.length_todo d (List.mem_cons_of_mem c hd)
  length_queue := h.length_queue
  sorted_todo := (List.pairwise_cons.1 h.sorted_todo).2
  sorted_queue := h.sorted_queue
  queue_before d hd := (h.queue_before d hd).tail
  seen_reached id i hi := (h.seen_reached id i hi).tail
  pending l hl := by
    obtain ⟨d, hd, i, r, rfl, hi⟩ := h.pending l hl
    rcases List.mem_cons.1 hd with rfl | hd
    · have hlt := hl.1.within i (List.mem_append_right _ List.mem_cons_self)
      omega
    · exact ⟨d, hd, i, r, rfl, hi⟩

/-- The extensions are extended in their turn, in the order in which they were made. -/
theorem turn (h : a.Frontier hand len [] queue seen) :
    a.Frontier hand (len + 1) queue.reverse [] seen where
  short := h.short
  isOpen d hd := by
    rw [List.append_nil, List.mem_reverse] at hd
    exact h.isOpen d hd
  length_todo d hd := h.length_queue d (List.mem_reverse.1 hd)
  length_queue := nofun
  sorted_todo := List.pairwise_reverse.2 h.sorted_queue
  sorted_queue := .nil
  queue_before := nofun
  seen_reached id i hi :=
    (h.seen_reached id i hi).turn fun d hd => h.length_queue d (List.mem_reverse.1 hd)
  pending l hl := by
    obtain ⟨d, hd, hb⟩ := h.pending l hl
    exact ⟨d, by rwa [List.append_nil, List.mem_reverse], hb⟩

/-- Choices of more positions than a hand has cannot be extended. -/
theorem not_picks (h : a.Frontier hand len todo [] seen) (hl : hand.length ≤ len) (l : List Nat) :
    ¬a.Picks hand l := by
  intro hp
  obtain ⟨m, hm⟩ := exists_picksFirst hp
  obtain ⟨d, hd, i, r, rfl, -⟩ := h.pending m hm
  have hlen := h.length_todo d (List.append_nil todo ▸ hd)
  have hle := hm.1.length_le
  simp only [List.length_append, List.length_cons] at hle
  omega

end Frontier
end Meld.Automaton
