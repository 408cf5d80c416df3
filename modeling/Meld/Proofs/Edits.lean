import Mathlib.Data.List.Basic
import Meld.Blueprint.Arena

namespace Meld.Blueprint

structure Edit where
  index : Nat
  change : State → State

namespace Arena

variable {α β : Type} {edits edits' : List Edit} {arena : Arena} {base count i n : Nat}

def revise (edits : List Edit) (arena : Arena) : Arena :=
  edits.foldl (fun arena e => arena.modify e.index e.change) arena

def reviseAt (edits : List Edit) (i : Nat) (s : State) : State :=
  edits.foldl (fun s e => if e.index = i then e.change s else s) s

theorem getElem?_revise (edits : List Edit) (arena : Arena) (i : Nat) :
    (revise edits arena)[i]? = arena[i]?.map (reviseAt edits i) := by
  induction edits generalizing arena with
  | nil => exact Option.map_id'.symm
  | cons e edits ih =>
    rw [revise, List.foldl_cons, ← revise, ih, Array.getElem?_modify]
    split
    · next h =>
      rw [Option.map_map]
      congr 1
      funext s
      simp only [Function.comp_apply, reviseAt, List.foldl_cons, if_pos h]
    · next h =>
      congr 1
      funext s
      simp only [reviseAt, List.foldl_cons, if_neg h]

theorem size_revise (edits : List Edit) (arena : Arena) :
    (revise edits arena).size = arena.size := by
  induction edits generalizing arena with
  | nil => rfl
  | cons e edits ih => rw [revise, List.foldl_cons, ← revise, ih, Array.size_modify]

theorem revise_append (edits edits' : List Edit) (arena : Arena) :
    revise (edits ++ edits') arena = revise edits' (revise edits arena) := List.foldl_append

theorem reviseAt_of_forall_ne (h : ∀ e ∈ edits, e.index ≠ i) (s : State) :
    reviseAt edits i s = s := by
  induction edits with
  | nil => rfl
  | cons e edits ih =>
    rw [List.forall_mem_cons] at h
    rw [reviseAt, List.foldl_cons, if_neg h.1]
    exact ih h.2

/-- States that come later are not touched by edits to those that are there. -/
theorem revise_append_arena (h : ∀ e ∈ edits, e.index < arena.size) (more : Arena) :
    revise edits (arena ++ more) = revise edits arena ++ more := by
  apply Array.ext_getElem?
  intro i
  rw [getElem?_revise, Array.getElem?_append, Array.getElem?_append, size_revise, getElem?_revise]
  split
  · rfl
  · next hi =>
    have later : ∀ e ∈ edits, e.index ≠ i := fun e he hei => hi (hei ▸ h e he)
    rw [funext (reviseAt_of_forall_ne later), Option.map_id']

/-- From `base` states, a step adds `count` plain ones, makes the edits and gives the result. -/
structure Yields (m : Building α) (base count : Nat) (edits : List Edit) (x : α) : Prop where
  within : ∀ e ∈ edits, e.index < base + count
  run_eq : ∀ arena : Arena, arena.size = base →
    m.run arena = some (x, revise edits (arena ++ Array.replicate count .plain))

theorem Yields.congr {m : Building α} {x x' : α} {count' : Nat}
    (h : Yields m base count edits x) (hc : count = count') (he : edits = edits') (hx : x = x') :
    Yields m base count' edits' x' := by
  subst hc he hx
  exact h

theorem yields_pure (x : α) : Yields (pure x) base 0 [] x where
  within := nofun
  run_eq arena _ := by
    rw [Array.replicate_zero, Array.append_empty]
    rfl

theorem Yields.bind {m : Building α} {f : α → Building β} {x : α} {y : β} {count' : Nat}
    (h : Yields m base count edits x) (h' : Yields (f x) (base + count) count' edits' y) :
    Yields (m >>= f) base (count + count') (edits ++ edits') y where
  within e he := by
    rw [← Nat.add_assoc]
    rcases List.mem_append.1 he with he | he
    · exact Nat.lt_of_lt_of_le (h.within e he) (Nat.le_add_right ..)
    · exact h'.within e he
  run_eq arena hs := by
    have size : (arena ++ Array.replicate count State.plain).size = base + count := by
      rw [Array.size_append, Array.size_replicate, hs]
    have first : ∀ e ∈ edits, e.index < (arena ++ Array.replicate count State.plain).size :=
      size ▸ h.within
    rw [StateT.run_bind, h.run_eq arena hs]
    change (f x).run _ = _
    -- what the second step adds comes behind all that the first one edits
    rw [h'.run_eq _ ((size_revise ..).trans size), revise_append,
      ← Array.replicate_append_replicate, ← Array.append_assoc, revise_append_arena first]

/-- A step that neither adds nor changes a state. -/
theorem Yields.read {m : Building α} {f : α → Building β} {x : α} {y : β}
    (h : Yields m base 0 [] x) (h' : Yields (f x) base count edits y) :
    Yields (m >>= f) base count edits y :=
  (h.bind h').congr (Nat.zero_add count) (List.nil_append edits) rfl

/-- A step that adds no state, and then another one. -/
theorem Yields.seq {m : Building Unit} {next : Building α} {x : α}
    (h : Yields m base 0 edits ()) (h' : Yields next base count edits' x) :
    Yields (m >>= fun _ => next) base count (edits ++ edits') x :=
  (h.bind (f := fun _ => next) h').congr (Nat.zero_add count) rfl rfl

theorem yields_alloc : Yields alloc base 1 [] (UInt32.ofNat base) where
  within := nofun
  run_eq arena hs := by
    subst hs
    rfl

theorem yields_change {id : StateId} (h : id.toNat < base) (f : State → State) :
    Yields (change id f) base 0 [⟨id.toNat, f⟩] () where
  within e he := by
    rw [List.mem_singleton.1 he]
    exact h
  run_eq arena hs := by
    rw [Array.replicate_zero, Array.append_empty]
    exact if_pos (hs ▸ h)

theorem yields_guard {p : Prop} [Decidable p] (h : p) :
    Yields (guard p) base 0 [] () where
  within := nofun
  run_eq arena _ := by
    rw [Array.replicate_zero, Array.append_empty, guard, if_pos h]
    rfl

theorem yields_nth {xs : List α} {x : α} (h : xs[i]? = some x) :
    Yields (nth xs i) base 0 [] x where
  within := nofun
  run_eq arena _ := by
    rw [Array.replicate_zero, Array.append_empty]
    change xs[i]?.map (·, arena) = _
    rw [h]
    rfl

/-- A loop of steps that add no state. -/
theorem yields_forM {xs : List β} {f : β → Building Unit} {edits : β → List Edit}
    (h : ∀ x ∈ xs, Yields (f x) base 0 (edits x) ()) :
    Yields (xs.forM f) base 0 (xs.flatMap edits) () := by
  induction xs with
  | nil => exact yields_pure ()
  | cons x xs ih =>
    rw [List.forall_mem_cons] at h
    exact h.1.seq (ih h.2)

theorem yields_forM_range {f : Nat → Building Unit} {edits : Nat → List Edit}
    (h : ∀ i < n, Yields (f i) base 0 (edits i) ()) :
    Yields ((List.range n).forM f) base 0 ((List.range n).flatMap edits) () :=
  yields_forM fun i hi => h i (List.mem_range.1 hi)

/-- A loop of steps that add as many states each. -/
theorem yields_mapM {xs : List β} {f : β → Building α} {edits : Nat → List Edit} {y : Nat → α}
    (h : ∀ i (hi : i < xs.length), Yields (f xs[i]) (base + i * n) n (edits i) (y i)) :
    Yields (xs.mapM f) base (xs.length * n) ((List.range xs.length).flatMap edits)
      ((List.range xs.length).map y) := by
  induction xs generalizing base edits y with
  | nil =>
    rw [List.mapM_nil, List.length_nil, Nat.zero_mul]
    exact yields_pure []
  | cons x xs ih =>
    have first := h 0 (Nat.zero_lt_succ _)
    have rest : Yields (xs.mapM f) (base + n) (xs.length * n)
        ((List.range xs.length).flatMap (edits ∘ Nat.succ))
        ((List.range xs.length).map (y ∘ Nat.succ)) := by
      apply ih
      intro i hi
      have next := h (i + 1) (Nat.succ_lt_succ hi)
      rwa [Nat.succ_mul, Nat.add_comm (i * n), ← Nat.add_assoc] at next
    rw [Nat.zero_mul] at first
    rw [List.mapM_cons, List.length_cons, List.range_succ_eq_map, List.flatMap_cons,
      List.flatMap_map, List.map_cons, List.map_map, Nat.succ_mul, Nat.add_comm (xs.length * n)]
    have both := rest.bind (f := fun ys => pure (y 0 :: ys)) (yields_pure _)
    rw [List.append_nil] at both
    exact first.bind both

theorem yields_mapM_range {f : Nat → Building α} {edits : Nat → List Edit} {y : Nat → α}
    (h : ∀ i < count, Yields (f i) (base + i * n) n (edits i) (y i)) :
    Yields ((List.range count).mapM f) base (count * n) ((List.range count).flatMap edits)
      ((List.range count).map y) := by
  have steps : ∀ i (hi : i < (List.range count).length),
      Yields (f (List.range count)[i]) (base + i * n) n (edits i) (y i) := by
    intro i hi
    rw [List.length_range] at hi
    rw [List.getElem_range]
    exact h i hi
  have all := yields_mapM steps
  rwa [List.length_range] at all

/-- A loop that only reads. -/
theorem yields_mapM_read {f : Nat → β} {m : β → Building α} {y : Nat → α}
    (h : ∀ i < n, Yields (m (f i)) base 0 [] (y i)) :
    Yields (((List.range n).map f).mapM m) base 0 [] ((List.range n).map y) := by
  have all : Yields ((List.range n).mapM (m ∘ f)) base (n * 0) ((List.range n).flatMap fun _ => [])
      ((List.range n).map y) := yields_mapM_range h
  rw [List.mapM_map]
  exact all.congr (Nat.mul_zero n) (List.flatMap_eq_nil_iff.2 fun _ _ => rfl) rfl

/-- A loop over a list together with the positions in it. -/
theorem yields_forM_zipIdx {f : Nat → β} {m : β × Nat → Building Unit} {edits : Nat → List Edit}
    (h : ∀ i < n, Yields (m (f i, i)) base 0 (edits i) ()) :
    Yields (((List.range n).map f).zipIdx.forM m) base 0 ((List.range n).flatMap edits) () := by
  have indexed : ((List.range n).map f).zipIdx = (List.range n).map fun i => (f i, i) := by
    apply List.ext_getElem?
    intro i
    by_cases hi : i < n <;> simp [hi]
  have steps : ∀ w ∈ (List.range n).map fun i => (f i, i), Yields (m w) base 0 (edits w.2) () := by
    intro w hw
    obtain ⟨i, hi, rfl⟩ := List.mem_map.1 hw
    exact h i (List.mem_range.1 hi)
  rw [indexed]
  exact (yields_forM steps).congr rfl (List.flatMap_map ..) rfl

theorem yields_allocChain (count : Nat) :
    Yields (allocChain count) base count []
      ((List.range count).map fun i => UInt32.ofNat (base + i)) := by
  have all : Yields (allocChain count) base (count * 1) ((List.range count).flatMap fun _ => [])
      ((List.range count).map fun i => UInt32.ofNat (base + i * 1)) :=
    yields_mapM_range fun i _ => yields_alloc
  simp only [Nat.mul_one] at all
  exact all.congr rfl (List.flatMap_eq_nil_iff.2 fun _ _ => rfl) rfl

end Arena
end Meld.Blueprint
