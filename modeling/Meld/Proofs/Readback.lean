import Mathlib.Algebra.Group.Nat.Defs
import Meld.Snapshot.Format

namespace Meld.Snapshot

variable {α β : Type}

/-- A reader that takes just the given bytes for a value, whatever follows them, and misses some
when they are cut short. -/
structure Reads (r : Reader α) (bytes : List UInt8) (x : α) : Prop where
  whole : ∀ rest, r (bytes ++ rest) = .ok (x, rest)
  cut : ∀ part rest, bytes = part ++ rest → rest ≠ [] →
    ∃ missing, r part = .error (.unexpectedEnd missing)

namespace Reads

variable {r : Reader α} {u v : List UInt8} {x : α} {y : β}

theorem pure (x : α) : Reads (Pure.pure x) [] x where
  whole _ := rfl
  cut _ _ h hr := absurd (List.append_eq_nil_iff.1 h.symm).2 hr

theorem bind {f : α → Reader β} (hr : Reads r u x) (hf : Reads (f x) v y) :
    Reads (r >>= f) (u ++ v) y where
  whole rest := by
    have hs : (r >>= f) (u ++ v ++ rest) = (r (u ++ (v ++ rest))).bind fun p => f p.1 p.2 := by
      rw [List.append_assoc]
      rfl
    rw [hs, hr.whole]
    exact hf.whole rest
  cut part rest h hrest := by
    have hs : (r >>= f) part = (r part).bind fun p => f p.1 p.2 := rfl
    have late {w : List UInt8} (hp : part = u ++ w) (hv : v = w ++ rest) :
        ∃ missing, (r >>= f) part = .error (.unexpectedEnd missing) := by
      rw [hs, hp, hr.whole]
      exact hf.cut w rest hv hrest
    rcases List.append_eq_append_iff.1 h with ⟨w, hp, hv⟩ | ⟨w, hu, hw⟩
    · exact late hp hv
    · -- the cut lies within the first bytes, or right behind them
      by_cases hn : w = []
      · subst hn
        exact late (w := []) (by rw [hu, List.append_nil, List.append_nil]) hw.symm
      · obtain ⟨missing, he⟩ := hr.cut part w hu hn
        exact ⟨missing, by rw [hs, he]; rfl⟩

/-- What is read last may depend on what came before, without a byte of its own. -/
theorem bind_nil {f : α → Reader β} (hr : Reads r u x) (hf : Reads (f x) [] y) :
    Reads (r >>= f) u y := by
  have h := hr.bind hf
  rwa [List.append_nil] at h

theorem map {f : α → β} (hr : Reads r u x) : Reads (f <$> r) u (f x) := by
  have h : Reads (r >>= fun x => Pure.pure (f x)) u (f x) := hr.bind_nil (pure (f x))
  exact h

/-- A byte that decides what is read after it. -/
theorem cons {b : UInt8} {s : Reader α} (hs : Reads s u x) (hr : ∀ bytes, r (b :: bytes) = s bytes)
    (hn : ∃ missing, r [] = .error (.unexpectedEnd missing)) : Reads r (b :: u) x where
  whole rest := (hr _).trans (hs.whole rest)
  cut part rest h hrest := by
    cases part with
    | nil => exact hn
    | cons c part =>
      obtain ⟨rfl, hu⟩ := List.cons.inj h
      rw [hr]
      exact hs.cut part rest hu hrest

end Reads

theorem reads_bytes (bytes : List UInt8) : Reads (readBytes bytes.length) bytes bytes := by
  induction bytes with
  | nil => exact Reads.pure []
  | cons b bytes ih =>
    have next : Reads ((b :: ·) <$> readBytes bytes.length) bytes (b :: bytes) := ih.map
    refine next.cons (fun rest => ?_) ⟨bytes.length + 1, rfl⟩
    change (readBytes bytes.length rest).map _ = (readBytes bytes.length rest).bind _
    cases readBytes bytes.length rest <;> rfl

theorem reads_times {read : Reader α} {write : α → List UInt8} {xs : List α}
    (h : ∀ x ∈ xs, Reads read (write x) x) :
    Reads (readTimes read xs.length) (xs.flatMap write) xs := by
  induction xs with
  | nil => exact Reads.pure []
  | cons x xs ih =>
    have hx := h x List.mem_cons_self
    have hxs := ih fun y hy => h y (List.mem_cons_of_mem x hy)
    exact hx.bind hxs.map

theorem ofLittleEndian_littleEndian (count n : Nat) (h : n < 256 ^ count) :
    ofLittleEndian (littleEndian count n) = n := by
  induction count generalizing n with
  | zero => exact (Nat.lt_one_iff.1 h).symm
  | succ count ih =>
    have hd : n / 256 < 256 ^ count := Nat.div_lt_of_lt_mul (by rwa [Nat.pow_succ'] at h)
    have hm : (UInt8.ofNat (n % 256)).toNat = n % 256 :=
      UInt8.toNat_ofNat_of_lt' (Nat.mod_lt n (by decide))
    rw [littleEndian, ofLittleEndian, ih _ hd, hm, Nat.mod_add_div]

theorem reads_littleEndian {count n : Nat} (h : n < 256 ^ count) :
    Reads (readLittleEndian count) (littleEndian count n) n := by
  have hb := (reads_bytes (littleEndian count n)).map (f := ofLittleEndian)
  rwa [length_littleEndian, ofLittleEndian_littleEndian count n h] at hb

/-- A number is read back where one of its size is expected. -/
theorem reads_integer {expected : Width} {n : Nat} (h : n < UInt64.size)
    (hw : expected = .word32 → n < UInt32.size) :
    Reads (readInteger expected) (writeInteger n) n := by
  have none_left : ∃ missing, readInteger expected [] = .error (.unexpectedEnd missing) := ⟨1, rfl⟩
  unfold writeInteger
  split
  · next hn =>
    have hb : (UInt8.ofNat n).toNat = n :=
      UInt8.toNat_ofNat_of_lt' (Nat.lt_trans hn (by decide))
    have small : UInt8.ofNat n < 251 := UInt8.lt_iff_toNat_lt.2 (hb.symm ▸ hn)
    refine (Reads.pure n).cons (fun bytes => ?_) none_left
    change (if UInt8.ofNat n < 251 then Pure.pure (UInt8.ofNat n).toNat else _ : Reader Nat)
      bytes = _
    rw [if_pos small, hb]
  · split
    · next hn => exact (reads_littleEndian hn).cons (fun bytes => rfl) none_left
    · split
      · next hn => exact (reads_littleEndian hn).cons (fun bytes => rfl) none_left
      · next hn =>
        -- so large a number is not expected in 32 bits
        have he : expected ≠ .word32 := fun he => hn (hw he)
        have hl : Reads (readLittleEndian 8) (littleEndian 8 n) n := reads_littleEndian h
        refine hl.cons (fun bytes => ?_) none_left
        change (if expected = .word32 then throw _ else readLittleEndian 8 : Reader Nat) bytes = _
        rw [if_neg he]

theorem reads_choice {choices : List (Reader α)} {i : Nat} {read : Reader α} {u : List UInt8}
    {x : α} (hi : i < UInt32.size) (hc : choices[i]? = some read) (hr : Reads read u x) :
    Reads (readChoice choices) (writeInteger i ++ u) x := by
  have hs : i < UInt64.size := Nat.lt_trans hi (by decide)
  refine (reads_integer hs fun _ => hi).bind ?_
  rw [hc]
  exact hr

/-- A choice that nothing more needs to be read for. -/
theorem reads_item {items : List α} {i : Nat} {x : α} (hi : i < UInt32.size)
    (hx : items[i]? = some x) :
    Reads (readChoice (items.map Pure.pure)) (writeInteger i) x := by
  have hc : (items.map (Pure.pure : α → Reader α))[i]? = some (Pure.pure x) := by
    rw [List.getElem?_map, hx, Option.map_some]
  have h := reads_choice hi hc (Reads.pure x)
  rwa [List.append_nil] at h

theorem reads_list {read : Reader α} {write : α → List UInt8} {xs : List α}
    (hl : xs.length < UInt64.size) (h : ∀ x ∈ xs, Reads read (write x) x) :
    Reads (readList read) (writeList write xs) xs := by
  have hn : Reads (readInteger .size) (writeInteger xs.length) xs.length := reads_integer hl nofun
  exact hn.bind (reads_times h)

theorem reads_boolean (b : Bool) : Reads readBoolean (writeBoolean b) b := by
  cases b <;> exact (Reads.pure _).cons (fun _ => rfl) ⟨1, rfl⟩

end Meld.Snapshot
