import Mathlib.Algebra.GroupWithZero.Nat
import Mathlib.Data.List.Forall2
import Meld.Phase.Text

namespace Meld

variable {ε α β : Type}

theorem map_eq_ok_iff {f : α → β} {x : Except ε α} {b : β} :
    x.map f = .ok b ↔ ∃ a, x = .ok a ∧ f a = b := by
  cases x <;> simp [Except.map]

theorem map_eq_error_iff {f : α → β} {x : Except ε α} {e : ε} :
    x.map f = .error e ↔ x = .error e := by
  cases x <;> simp [Except.map]

theorem bind_eq_ok_iff {f : α → Except ε β} {x : Except ε α} {b : β} :
    x >>= f = .ok b ↔ ∃ a, x = .ok a ∧ f a = .ok b := by
  cases x with
  | error e => exact ⟨nofun, nofun⟩
  | ok a =>
    refine ⟨fun h => ⟨a, rfl, h⟩, ?_⟩
    rintro ⟨_, ⟨⟩, h⟩
    exact h

/-- All parts of a list are read in turn, and the list is refused if one of them is. -/
theorem mapM_eq_ok_iff {f : α → Except ε β} {xs : List α} {ys : List β} :
    xs.mapM f = .ok ys ↔ List.Forall₂ (fun x y => f x = .ok y) xs ys := by
  induction xs generalizing ys with
  | nil =>
    rw [List.mapM_nil, List.forall₂_nil_left_iff]
    constructor
    · rintro ⟨⟩
      rfl
    · rintro rfl
      rfl
  | cons x xs ih =>
    rw [List.mapM_cons, List.forall₂_cons_left_iff]
    simp only [← ih]
    cases f x with
    | error e => exact ⟨nofun, nofun⟩
    | ok y =>
      cases xs.mapM f with
      | error e => exact ⟨nofun, nofun⟩
      | ok ys' =>
        constructor
        · rintro ⟨⟩
          exact ⟨y, ys', rfl, rfl, rfl⟩
        · rintro ⟨_, _, ⟨⟩, ⟨⟩, rfl⟩
          rfl

/-- The first part that is refused decides the error. -/
theorem mapM_eq_error_iff {f : α → Except ε β} {xs : List α} {e : ε} :
    xs.mapM f = .error e ↔ ∃ good x rest, xs = good ++ x :: rest ∧
      (∀ y ∈ good, ∃ z, f y = .ok z) ∧ f x = .error e := by
  induction xs with
  | nil =>
    refine ⟨nofun, ?_⟩
    rintro ⟨good, x, rest, h, -⟩
    simp at h
  | cons y xs ih =>
    rw [List.mapM_cons]
    constructor
    · intro h
      cases hy : f y with
      | error e' =>
        rw [hy] at h
        cases h
        exact ⟨[], y, xs, rfl, nofun, hy⟩
      | ok z =>
        rw [hy] at h
        cases hm : xs.mapM f with
        | ok zs =>
          rw [hm] at h
          cases h
        | error e' =>
          rw [hm] at h
          cases h
          obtain ⟨good, x, rest, rfl, hg, hx⟩ := ih.1 hm
          exact ⟨y :: good, x, rest, rfl, List.forall_mem_cons.2 ⟨⟨z, hy⟩, hg⟩, hx⟩
    · rintro ⟨good, x, rest, he, hg, hx⟩
      cases good with
      | nil =>
        obtain ⟨rfl, rfl⟩ := List.cons.inj he
        rw [hx]
        rfl
      | cons z good =>
        obtain ⟨rfl, rfl⟩ := List.cons.inj he
        rw [List.forall_mem_cons] at hg
        obtain ⟨⟨z, hz⟩, hg⟩ := hg
        rw [hz, ih.2 ⟨good, x, rest, rfl, hg, hx⟩]
        rfl

theorem exists_mem_of_forall₂ {r : α → β → Prop} {xs : List α} {ys : List β}
    (h : List.Forall₂ r xs ys) {y : β} (hy : y ∈ ys) : ∃ x ∈ xs, r x y := by
  induction h with
  | nil => exact absurd hy List.not_mem_nil
  | cons hxy _ ih =>
    rcases List.mem_cons.1 hy with rfl | hy
    · exact ⟨_, List.mem_cons_self, hxy⟩
    · obtain ⟨x, hx, hr⟩ := ih hy
      exact ⟨x, List.mem_cons_of_mem _ hx, hr⟩

theorem Component.inRange_of_parse {whole : String} {cs : List Char} {c : Component}
    (h : Component.parse whole cs = .ok c) : c.InRange := by
  unfold Component.parse at h
  split at h
  · split at h
    · split at h
      · exact (make_eq_ok_iff.1 h).2
      · contradiction
    · contradiction
  · contradiction

namespace Phase

def Legal : Phase → Prop
  | unsized _ => True
  | sized components => components ≠ [] ∧ ∀ c ∈ components, c.InRange

/-- The fewest cards that satisfy the phase, however many. -/
def minCards : Phase → Nat
  | unsized _ => 1
  | sized components => (components.map (·.size.toNat)).sum

theorem legal_of_parse {text : String} {p : Phase} (h : parse text = .ok p) : p.Legal := by
  unfold parse at h
  split at h
  · split at h
    · obtain rfl := Except.ok.inj h
      trivial
    · contradiction
  · obtain ⟨components, hc, rfl⟩ := map_eq_ok_iff.1 h
    have hf := mapM_eq_ok_iff.1 hc
    constructor
    · rintro rfl
      exact List.splitOn_ne_nil _ _ (List.forall₂_nil_right_iff.1 hf)
    · intro c hc
      obtain ⟨cs, -, hp⟩ := exists_mem_of_forall₂ hf hc
      exact Component.inRange_of_parse hp

/-- A sum that is checked at each step is too large at one of them just when it is in the end. -/
theorem foldlM_addSizes (cs : List Component) (count : UInt64) :
    cs.foldlM (fun count c => addSizes count c.size) count =
      if count.toNat + (cs.map (·.size.toNat)).sum < UInt64.size then
        .ok (UInt64.ofNat (count.toNat + (cs.map (·.size.toNat)).sum))
      else .error .overflow := by
  induction cs generalizing count with
  | nil =>
    rw [List.map_nil, List.sum_nil, Nat.add_zero, if_pos count.toNat_lt, UInt64.ofNat_toNat]
    rfl
  | cons c cs ih =>
    rw [List.foldlM_cons, List.map_cons, List.sum_cons, ← Nat.add_assoc]
    by_cases fits : count.toNat + c.size.toNat < UInt64.size
    · have word : (count + c.size).toNat = count.toNat + c.size.toNat := by
        rw [UInt64.toNat_add]
        exact Nat.mod_eq_of_lt fits
      rw [addSizes, if_pos fits]
      exact word ▸ ih (count + c.size)
    · rw [addSizes, if_neg fits, if_neg (by omega)]
      rfl

theorem cardsNeeded_eq (p : Phase) : p.cardsNeeded =
    if p.minCards < UInt64.size then .ok (UInt64.ofNat p.minCards) else .error .overflow := by
  cases p with
  | unsized shape => rfl
  | sized components =>
    have sum := foldlM_addSizes components 0
    rwa [UInt64.toNat_zero, Nat.zero_add] at sum

theorem cardsNeeded_eq_ok_iff {p : Phase} {n : UInt64} :
    p.cardsNeeded = .ok n ↔ n.toNat = p.minCards := by
  rw [cardsNeeded_eq]
  split
  · next fits =>
    rw [Except.ok.injEq, ← UInt64.toNat_inj, UInt64.toNat_ofNat_of_lt' fits, eq_comm]
  · next large =>
    refine iff_of_false nofun fun he => large ?_
    rw [← he]
    exact n.toNat_lt

theorem exists_cardsNeeded_of_lt {p : Phase} (fits : p.minCards < UInt64.size) :
    ∃ n, p.cardsNeeded = .ok n ∧ n.toNat = p.minCards :=
  have word := UInt64.toNat_ofNat_of_lt' fits
  ⟨_, cardsNeeded_eq_ok_iff.2 word, word⟩

theorem cardsNeeded_eq_error_iff {p : Phase} {e : CountError} :
    p.cardsNeeded = .error e ↔ UInt64.size ≤ p.minCards := by
  rw [cardsNeeded_eq]
  split
  · next fits => exact iff_of_false nofun (Nat.not_le_of_lt fits)
  · next large => exact iff_of_true rfl (Nat.le_of_not_lt large)

end Phase
end Meld
