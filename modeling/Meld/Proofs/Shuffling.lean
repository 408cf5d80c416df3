import Meld.Automaton.Search
import Meld.Deck.Shuffled

namespace Meld

namespace Random

variable {α : Type} {source : Nat → UInt32} {key : Vector UInt32 8} {n range top fuel period : Nat}
  {i j k place next m : Nat} {made : List (Nat × Nat)} {w : UInt32} {ws : List UInt32}

def Counts (source : Nat → UInt32) (range place : Nat) : Prop :=
  (source place).toNat * range % UInt32.size ≤ zone range

/-- What a draw comes to that goes on, with no limit, until a word counts: the value and the place
after the word. -/
inductive Draws (source : Nat → UInt32) (range : Nat) : Nat → Nat → Nat → Prop
  | counts {place : Nat} : Counts source range place →
      Draws source range place ((source place).toNat * range / UInt32.size) (place + 1)
  | rejected {place j next : Nat} : ¬Counts source range place →
      Draws source range (place + 1) j next → Draws source range place j next

namespace Draws

theorem lt_next (h : Draws source range place j next) : place < next := by
  induction h with
  | counts _ => omega
  | rejected _ _ ih => omega

theorem counts_last (h : Draws source range place j next) :
    ∃ last, next = last + 1 ∧ Counts source range last := by
  induction h with
  | counts hc => exact ⟨_, rfl, hc⟩
  | rejected _ _ ih => exact ih

theorem not_counts (h : Draws source range place j next) (hm : place ≤ m) (hn : m + 1 < next) :
    ¬Counts source range m := by
  induction h with
  | counts _ => omega
  | rejected hr _ ih =>
    obtain rfl | hm := Nat.eq_or_lt_of_le hm
    · exact hr
    · exact ih hm hn

/-- Where no word of a period counts, none of the next one does. -/
theorem next_le (h : Draws source range place j next)
    (periodic : ∀ i, source (i + period) = source i) (pos : 0 < period) : next ≤ place + period := by
  obtain ⟨last, rfl, hc⟩ := h.counts_last
  apply Nat.le_of_not_lt
  intro hn
  have again : Counts source range (last - period) := by
    rw [Counts, ← periodic, Nat.sub_add_cancel (by omega)]
    exact hc
  exact h.not_counts (by omega) (by omega) again

theorem drawFrom_eq (h : Draws source (top + 1) place j next) (hf : next ≤ place + fuel) :
    (drawFrom source top fuel place).1 = j ∧ (drawFrom source top fuel place).2 = next := by
  induction h generalizing fuel with
  | counts hc =>
    obtain ⟨fuel, rfl⟩ : ∃ f, fuel = f + 1 := ⟨fuel - 1, by omega⟩
    unfold Counts at hc
    rw [drawFrom, if_pos hc]
    exact ⟨rfl, rfl⟩
  | rejected hr h ih =>
    have hn := h.lt_next
    obtain ⟨fuel, rfl⟩ : ∃ f, fuel = f + 1 := ⟨fuel - 1, by omega⟩
    unfold Counts at hr
    rw [drawFrom, if_neg hr]
    exact ih (by omega)

end Draws

/-- The block counter starts again at zero. -/
theorem keystream_periodic (i : Nat) : keystream key (i + 16 * UInt64.size) = keystream key i := by
  have hd : (i + 16 * UInt64.size) / 16 = i / 16 + UInt64.size := Nat.add_mul_div_left _ _ (by decide)
  have hm : (i + 16 * UInt64.size) % 16 = i % 16 := Nat.add_mul_mod_self_left ..
  simp only [keystream, hd, hm, UInt64.ofNat_add, UInt64.ofNat_size, UInt64.add_zero]

/-- Positions that trade places one after the other, drawn with no limit. -/
inductive Trades (source : Nat → UInt32) : Nat → Nat → List (Nat × Nat) → Prop
  | done {place : Nat} : Trades source 0 place []
  | trade {i place j next : Nat} {made : List (Nat × Nat)} : Draws source (i + 2) place j next →
      Trades source i next made → Trades source (i + 1) place ((i + 1, j) :: made)

def trades (source : Nat → UInt32) : Nat → Nat → List (Nat × Nat)
  | 0, _ => []
  | i + 1, place =>
    let drawn := draw source (i + 1) place
    (i + 1, drawn.1) :: trades source i drawn.2

/-- A draw that ends does so within a period. -/
theorem Trades.eq (h : Trades source i place made)
    (periodic : ∀ i, source (i + 16 * UInt64.size) = source i) : made = trades source i place := by
  induction h with
  | done => rfl
  | trade hd _ ih =>
    obtain ⟨hj, hn⟩ := hd.drawFrom_eq (hd.next_le periodic (by decide))
    rw [trades, ih, draw, hj, hn]

/-- Whether all draws of a shuffle find a word that counts among the given ones. -/
def endsWithin : Nat → List UInt32 → Bool
  | 0, _ => true
  | _ + 1, [] => false
  | i + 1, w :: ws =>
    if w.toNat * (i + 2) % UInt32.size ≤ zone (i + 2) then endsWithin i ws
    else endsWithin (i + 1) ws

theorem exists_trades (h : endsWithin i ws = true)
    (stands : ∀ k w, ws[k]? = some w → source (place + k) = w) :
    ∃ made, Trades source i place made := by
  induction ws generalizing i place with
  | nil =>
    cases i with
    | zero => exact ⟨_, .done⟩
    | succ i => contradiction
  | cons w ws ih =>
    cases i with
    | zero => exact ⟨_, .done⟩
    | succ i =>
      have first : source place = w := stands 0 w rfl
      have later (k : Nat) (v : UInt32) (hv : ws[k]? = some v) : source (place + 1 + k) = v := by
        rw [Nat.add_assoc, Nat.add_comm 1]
        exact stands (k + 1) v hv
      rw [endsWithin, ← first] at h
      split at h
      · next counts =>
        obtain ⟨made, trades⟩ := ih h later
        exact ⟨_, .trade (.counts counts) trades⟩
      · next rejected =>
        obtain ⟨_, _ | ⟨drawn, trades⟩⟩ := ih h later
        exact ⟨_, .trade (.rejected rejected drawn) trades⟩

def leading (key : Vector UInt32 8) (blocks : Nat) : List UInt32 :=
  (List.range blocks).flatMap fun c => (keystreamBlock key (UInt64.ofNat c)).toList

theorem keystream_eq_of_leading {blocks : Nat} (h : (leading key blocks)[k]? = some w) :
    keystream key k = w := by
  induction blocks with
  | zero => contradiction
  | succ blocks ih =>
    have length : (leading key blocks).length = 16 * blocks := by
      simp only [leading, List.length_flatMap, Vector.length_toList, List.map_const',
        List.length_range, List.sum_replicate_nat, Nat.mul_comm]
    rw [leading, List.range_succ, List.flatMap_append, ← leading, List.getElem?_append, length] at h
    split at h
    · exact ih h
    · next beyond =>
      obtain ⟨within, rfl⟩ := List.getElem?_eq_some_iff.1 (List.flatMap_singleton .. ▸ h)
      rw [Vector.length_toList] at within
      have block : k / 16 = blocks := by omega
      have word : k % 16 = k - 16 * blocks := by omega
      simp only [keystream, block, word, Vector.getElem_toList]

theorem map_fst_trades (source : Nat → UInt32) (i place : Nat) :
    (trades source i place).map Prod.fst = (List.range' 1 i).reverse := by
  induction i generalizing place with
  | zero => rfl
  | succ i ih =>
    rw [trades, List.map_cons, ih, List.range'_concat, List.reverse_append, Nat.one_mul,
      Nat.add_comm 1]
    rfl

theorem snd_le_of_mem_trades {e : Nat × Nat} (he : e ∈ trades source i place) : e.2 ≤ e.1 := by
  induction i generalizing place with
  | zero => contradiction
  | succ i ih =>
    rcases List.mem_cons.1 he with rfl | he
    · exact Nat.le_of_lt_succ (draw source (i + 1) place).1.isLt
    · exact ih he

/-- Two positions of a list trade places, if there are both of them. -/
def swap? (xs : List α) (e : Nat × Nat) : Option (List α) := do
  let x ← xs[e.1]?
  let y ← xs[e.2]?
  return (xs.set e.1 y).set e.2 x

theorem swap?_toList (v : Vector α n) (hi : i < n) (hj : j < n) :
    swap? v.toList (i, j) = some (v.swap i j).toList := by
  simp [swap?, hi, hj, Vector.toList_swap]

theorem foldlM_trades (source : Nat → UInt32) (h : i < n) (place : Nat) (v : Vector α n) :
    (trades source i place).foldlM swap? v.toList =
      some (shuffleBelow source i h place v).toList := by
  induction i generalizing place v with
  | zero => rfl
  | succ i ih =>
    have hj := (draw source (i + 1) place).1.isLt
    rw [trades, List.foldlM_cons, swap?_toList v h (by omega)]
    exact ih ..

/-- Every trade of a shuffle finds both of its positions. -/
theorem foldlM_trades_shuffle (source : Nat → UInt32) (xs : List α) :
    (trades source (xs.length - 1) 0).foldlM swap? xs = some (shuffle source xs) := by
  unfold shuffle
  split
  · exact foldlM_trades source (by omega) 0 (⟨xs.toArray, rfl⟩ : Vector α xs.length)
  · next h =>
    rw [List.eq_nil_of_length_eq_zero (by omega : xs.length = 0)]
    rfl

end Random

namespace Deck

variable {cards dealt : List Card}

/-- Two cards of each number and real color, four skips and eight wild cards, and no others. -/
structure Complete (cards : List Card) : Prop where
  numbered : ∀ color ∈ Color.real, ∀ rank ∈ Rank.numbered,
    (Card.make color rank).toOption.map cards.count = some 2
  skips : cards.count Card.skip = 4
  wilds : cards.count Card.wild = 8
  length : cards.length = 108

theorem complete_full : Complete full where
  numbered := by decide
  skips := by decide
  wilds := by decide
  length := length_full

theorem Complete.of_perm (h : Complete cards) (hp : dealt.Perm cards) : Complete dealt where
  numbered := by simpa only [hp.count_eq] using h.numbered
  skips := by rw [hp.count_eq, h.skips]
  wilds := by rw [hp.count_eq, h.wilds]
  length := by rw [hp.length_eq, h.length]

def trades (seed : UInt64) : List (Nat × Nat) := Random.trades (Random.words seed) (size - 1) 0

/-- Whatever its seed, a shuffled deck is a full deck whose cards have traded places, from the last
position down, and a search looks at every card of a hand that is dealt from it. The positions are
those that are drawn with no limit, if all of these draws end. -/
theorem shuffled_complete (seed : UInt64) :
    (∀ made, Random.Trades (Random.words seed) (size - 1) 0 made → made = trades seed) ∧
    (trades seed).map Prod.fst = (List.range' 1 (size - 1)).reverse ∧
    (∀ e ∈ trades seed, e.2 ≤ e.1 ∧ e.1 < full.length) ∧
    (trades seed).foldlM Random.swap? full = some (shuffled seed) ∧
    (shuffled seed).Perm full ∧ Complete (shuffled seed) ∧
    ∀ hand : List Card, hand.Sublist (shuffled seed) → hand.length ≤ Automaton.handLimit := by
  have perm : (shuffled seed).Perm full := Random.shuffle_perm ..
  have firsts := Random.map_fst_trades (Random.words seed) (size - 1) 0
  have complete := complete_full.of_perm perm
  refine ⟨fun made h => h.eq Random.keystream_periodic, firsts, fun e he => ?_, ?_, perm, complete,
    fun hand hs => ?_⟩
  · refine ⟨Random.snd_le_of_mem_trades he, ?_⟩
    have hi : e.1 ∈ (List.range' 1 (size - 1)).reverse := firsts ▸ List.mem_map_of_mem he
    rw [List.mem_reverse, List.mem_range'_1] at hi
    rw [length_full]
    exact hi.2
  · rw [trades, ← length_full]
    exact Random.foldlM_trades_shuffle ..
  · calc hand.length ≤ (shuffled seed).length := hs.length_le
      _ = 108 := complete.length
      _ ≤ Automaton.handLimit := by decide

/-- All draws of this shuffle end within ten blocks of words. -/
theorem shuffled_complete_zero : ∃ made, Random.Trades (Random.words 0) (size - 1) 0 made ∧
    made.foldlM Random.swap? full = some (shuffled 0) := by
  have ends : Random.endsWithin (size - 1) (Random.leading (Random.seedKey 0) 10) = true := by
    decide +kernel
  have stands (k : Nat) (w : UInt32)
      (hw : (Random.leading (Random.seedKey 0) 10)[k]? = some w) :
      Random.words 0 (0 + k) = w := by
    rw [Nat.zero_add]
    exact Random.keystream_eq_of_leading hw
  obtain ⟨made, drawn⟩ := Random.exists_trades ends stands
  obtain ⟨traded, -, -, shuffles, -⟩ := shuffled_complete 0
  exact ⟨made, drawn, traded made drawn ▸ shuffles⟩

end Deck
end Meld
