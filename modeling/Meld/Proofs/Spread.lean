import Meld.Proofs.Tokens

namespace Meld.Text

def Solid (cs : List Char) : Prop := cs ≠ [] ∧ ∀ c ∈ cs, isBlank c = false

/-- Words in their order make up a text, with one blank or more between any two of them, and maybe
blanks before the first and behind the last. -/
inductive Spread : List (List Char) → List Char → Prop where
  | blank {gap : List Char} : (∀ c ∈ gap, isBlank c = true) → Spread [] gap
  | last {gap word : List Char} : (∀ c ∈ gap, isBlank c = true) → Spread [word] (gap ++ word)
  | cons {gap word rest : List Char} {b : Char} {words : List (List Char)} :
      (∀ c ∈ gap, isBlank c = true) → isBlank b = true → Spread words rest →
      Spread (word :: words) (gap ++ word ++ b :: rest)

variable {gap xs ys cs : List Char} {b : Char} {ws : List (List Char)}

theorem words_of_solid (h : Solid cs) : words cs = [cs] := words_eq_singleton h.1 h.2

/-- Blanks before the first word are passed over. -/
theorem words_blank_append (h : ∀ c ∈ gap, isBlank c = true) (cs : List Char) :
    words (gap ++ cs) = words cs := by
  induction gap with
  | nil => rfl
  | cons b gap ih =>
    obtain ⟨hb, hg⟩ := List.forall_mem_cons.1 h
    exact (words_append_cons hb [] (gap ++ cs)).trans (ih hg)

/-- A gap parts the words before it from those after it. -/
theorem words_append_gap_append (hne : gap ≠ []) (h : ∀ c ∈ gap, isBlank c = true)
    (xs ys : List Char) : words (xs ++ gap ++ ys) = words xs ++ words ys := by
  obtain ⟨b, gap, rfl⟩ := List.exists_cons_of_ne_nil hne
  obtain ⟨hb, hg⟩ := List.forall_mem_cons.1 h
  rw [List.append_assoc, List.cons_append, words_append_cons hb, words_blank_append hg]

namespace Spread

theorem words_eq (h : Spread ws cs) (solid : ∀ w ∈ ws, Solid w) : words cs = ws := by
  induction h with
  | @blank gap hg =>
    rw [← List.append_nil gap, words_blank_append hg]
    rfl
  | last hg =>
    rw [words_blank_append hg]
    exact words_of_solid (solid _ List.mem_cons_self)
  | cons hg hb hs ih =>
    obtain ⟨hw, hws⟩ := List.forall_mem_cons.1 solid
    rw [words_append_cons hb, words_blank_append hg, words_of_solid hw, ih hws]
    rfl

/-- One more blank in front makes no difference. -/
theorem blank_cons (hb : isBlank b = true) (h : Spread ws cs) : Spread ws (b :: cs) := by
  cases h with
  | blank hg => exact .blank (List.forall_mem_cons.2 ⟨hb, hg⟩)
  | last hg => exact @last (b :: _) _ (List.forall_mem_cons.2 ⟨hb, hg⟩)
  | cons hg hc hs => exact @cons (b :: _) _ _ _ _ (List.forall_mem_cons.2 ⟨hb, hg⟩) hc hs

end Spread

theorem spread_words_append (h : ∀ c ∈ xs, isBlank c = false) (cs : List Char) :
    Spread (words (xs ++ cs)) (xs ++ cs) ∧ ∀ w ∈ words (xs ++ cs), Solid w := by
  -- the part of a word that has been read so far stands before the rest of the text
  induction cs generalizing xs with
  | nil =>
    rw [List.append_nil]
    by_cases hx : xs = []
    · subst hx
      exact ⟨.blank nofun, nofun⟩
    · rw [words_eq_singleton hx h]
      exact ⟨@Spread.last [] xs nofun, List.forall_mem_singleton.2 ⟨hx, h⟩⟩
  | cons c cs ih =>
    by_cases hc : isBlank c = true
    · obtain ⟨hs, hw⟩ := @ih [] nofun
      rw [List.nil_append] at hs hw
      rw [words_append_cons hc]
      by_cases hx : xs = []
      · subst hx
        exact ⟨hs.blank_cons hc, hw⟩
      · rw [words_eq_singleton hx h]
        exact ⟨@Spread.cons [] xs _ _ _ nofun hc hs, List.forall_mem_cons.2 ⟨⟨hx, h⟩, hw⟩⟩
    · have hx : ∀ d ∈ xs ++ [c], isBlank d = false := by
        rw [List.forall_mem_append, List.forall_mem_singleton]
        exact ⟨h, Bool.eq_false_iff.2 hc⟩
      have hi := ih hx
      rwa [List.append_assoc, List.singleton_append] at hi

/-- There is one way to take a text apart into words. -/
theorem words_eq_iff : words cs = ws ↔ Spread ws cs ∧ ∀ w ∈ ws, Solid w := by
  constructor
  · rintro rfl
    exact @spread_words_append [] nofun cs
  · exact fun h => h.1.words_eq h.2

end Meld.Text
