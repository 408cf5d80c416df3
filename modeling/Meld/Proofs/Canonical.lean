import Meld.Proofs.Ascii
import Meld.Proofs.Pieces
import Meld.Proofs.RoundTrip
import Meld.Proofs.Sound
import Meld.Proofs.Tokens

namespace Meld

namespace Snapshot

variable {α β : Type}

def Front (pieces : List Piece) (bytes rest : List UInt8) : Prop :=
  ∃ part spelling, bytes = part ++ rest ∧ Spells pieces part spelling

namespace Front

variable {bytes mid rest : List UInt8} {ps qs : List Piece}

theorem nil (bytes : List UInt8) : Front [] bytes bytes := ⟨[], [], rfl, .nil⟩

theorem append (h : Front ps bytes mid) (h' : Front qs mid rest) : Front (ps ++ qs) bytes rest := by
  obtain ⟨part, spelling, rfl, hs⟩ := h
  obtain ⟨part', spelling', rfl, hs'⟩ := h'
  exact ⟨part ++ part', spelling ++ spelling', (List.append_assoc ..).symm, hs.append hs'⟩

theorem number {form : Form} {n : Nat} (h : n < form.limit) (rest : List UInt8) :
    Front [.number n] (form.write n ++ rest) rest :=
  ⟨form.write n, [.number form n], rfl, rfl, List.append_nil _,
    List.forall_mem_singleton.2 h⟩

theorem bytes_append (raw rest : List UInt8) : Front (raw.map .byte) (raw ++ rest) rest := by
  refine ⟨raw, raw.map .byte, rfl, ?_, ?_, ?_⟩
  · rw [List.map_map]
    rfl
  · rw [List.flatMap_map]
    exact List.flatMap_singleton' raw
  · intro w hw
    obtain ⟨b, -, rfl⟩ := List.mem_map.1 hw
    trivial

end Front

/-- A reader takes the pieces of what it gives, and no more. -/
def Parses (r : Reader α) (pieces : α → List Piece) : Prop :=
  ∀ {bytes x rest}, r bytes = .ok (x, rest) → Front (pieces x) bytes rest

theorem bind_eq_ok {r : Reader α} {f : α → Reader β} {bytes rest : List UInt8} {y : β}
    (h : (r >>= f) bytes = .ok (y, rest)) :
    ∃ x mid, r bytes = .ok (x, mid) ∧ f x mid = .ok (y, rest) := by
  have hs : (r >>= f) bytes = r bytes >>= fun p => f p.1 p.2 := rfl
  rw [hs, bind_eq_ok_iff] at h
  obtain ⟨⟨x, mid⟩, hx, hf⟩ := h
  exact ⟨x, mid, hx, hf⟩

theorem map_eq_ok {r : Reader α} {f : α → β} {bytes rest : List UInt8} {y : β}
    (h : (f <$> r) bytes = .ok (y, rest)) : ∃ x, r bytes = .ok (x, rest) ∧ f x = y := by
  have hs : (f <$> r) bytes = (r >>= fun x => pure (f x)) bytes := rfl
  rw [hs] at h
  obtain ⟨x, mid, hx, hf⟩ := bind_eq_ok h
  cases hf
  exact ⟨x, hx, rfl⟩

theorem readBytes_eq_ok {n : Nat} {bytes raw rest : List UInt8}
    (h : readBytes n bytes = .ok (raw, rest)) : bytes = raw ++ rest ∧ raw.length = n := by
  induction n generalizing bytes raw with
  | zero =>
    cases h
    exact ⟨rfl, rfl⟩
  | succ n ih =>
    cases bytes with
    | nil => cases h
    | cons b bytes =>
      obtain ⟨⟨raw, rest⟩, hr, ⟨⟩⟩ := map_eq_ok_iff.1 h
      obtain ⟨rfl, rfl⟩ := ih hr
      exact ⟨rfl, rfl⟩

theorem ofLittleEndian_lt (raw : List UInt8) : ofLittleEndian raw < 256 ^ raw.length := by
  induction raw with
  | nil => exact Nat.one_pos
  | cons b raw ih =>
    have hb := b.toNat_lt
    rw [ofLittleEndian, List.length_cons, Nat.pow_succ']
    omega

theorem littleEndian_ofLittleEndian (raw : List UInt8) :
    littleEndian raw.length (ofLittleEndian raw) = raw := by
  induction raw with
  | nil => rfl
  | cons b raw ih =>
    have hb : b.toNat < 256 := b.toNat_lt
    have hm : (b.toNat + 256 * ofLittleEndian raw) % 256 = b.toNat := by omega
    have hd : (b.toNat + 256 * ofLittleEndian raw) / 256 = ofLittleEndian raw := by omega
    rw [List.length_cons, littleEndian, ofLittleEndian, hm, hd, ih, UInt8.ofNat_toNat]

theorem readLittleEndian_eq_ok {count n : Nat} {bytes rest : List UInt8}
    (h : readLittleEndian count bytes = .ok (n, rest)) :
    n < 256 ^ count ∧ bytes = littleEndian count n ++ rest := by
  obtain ⟨raw, hr, rfl⟩ := map_eq_ok h
  obtain ⟨rfl, rfl⟩ := readBytes_eq_ok hr
  rw [littleEndian_ofLittleEndian]
  exact ⟨ofLittleEndian_lt raw, rfl⟩

/-- A number is read in whatever form, unless it would not fit what is expected. -/
theorem readInteger_eq_ok {expected : Width} {bytes rest : List UInt8} {n : Nat}
    (h : readInteger expected bytes = .ok (n, rest)) :
    ∃ form : Form, n < form.limit ∧ bytes = form.write n ++ rest ∧
      (expected = .word32 → n < UInt32.size) := by
  obtain ⟨all, _, hg, h⟩ := bind_eq_ok h
  cases hg
  obtain ⟨first, mid, hb, h⟩ := bind_eq_ok h
  cases bytes with
  | nil => cases hb
  | cons b bytes =>
    cases hb
    by_cases h1 : first < 251
    · rw [if_pos h1] at h
      cases h
      have hn : first.toNat < 251 := UInt8.lt_iff_toNat_lt.1 h1
      refine ⟨.one, hn, ?_, fun _ => Nat.lt_trans hn (by decide)⟩
      rw [Form.write, UInt8.ofNat_toNat]
      rfl
    rw [if_neg h1] at h
    by_cases h2 : first = 251
    · subst h2
      obtain ⟨hn, rfl⟩ := readLittleEndian_eq_ok h
      exact ⟨.two, hn, rfl, fun _ => Nat.lt_trans hn (by decide)⟩
    rw [if_neg h2] at h
    by_cases h4 : first = 252
    · subst h4
      obtain ⟨hn, rfl⟩ := readLittleEndian_eq_ok h
      exact ⟨.four, hn, rfl, fun _ => hn⟩
    rw [if_neg h4] at h
    by_cases h8 : first = 253
    · subst h8
      rw [if_pos rfl] at h
      by_cases he : expected = .word32
      · rw [if_pos he] at h
        cases h
      · rw [if_neg he] at h
        obtain ⟨hn, rfl⟩ := readLittleEndian_eq_ok h
        exact ⟨.eight, hn, rfl, fun hw => absurd hw he⟩
    · rw [if_neg h8] at h
      cases h

theorem front_of_readInteger {expected : Width} {bytes rest : List UInt8} {n : Nat}
    (h : readInteger expected bytes = .ok (n, rest)) : Front [.number n] bytes rest := by
  obtain ⟨form, hn, rfl, -⟩ := readInteger_eq_ok h
  exact .number hn rest

theorem readChoice_eq_ok {choices : List (Reader α)} {bytes rest : List UInt8} {x : α}
    (h : readChoice choices bytes = .ok (x, rest)) : ∃ i read mid, choices[i]? = some read ∧
      Front [.number i] bytes mid ∧ read mid = .ok (x, rest) := by
  obtain ⟨i, mid, hi, h⟩ := bind_eq_ok h
  have front := front_of_readInteger hi
  cases hc : choices[i]? with
  | none =>
    rw [hc] at h
    cases h
  | some read =>
    rw [hc] at h
    exact ⟨i, read, mid, hc, front, h⟩

theorem parses_item {items : List α} {index : α → Nat} (hi : ∀ x, items[index x]? = some x)
    (hn : items.Nodup) : Parses (readChoice (items.map pure)) fun x => [.number (index x)] := by
  intro bytes x rest h
  obtain ⟨i, read, mid, hc, front, hr⟩ := readChoice_eq_ok h
  rw [List.getElem?_map] at hc
  obtain ⟨y, hy, rfl⟩ := Option.map_eq_some_iff.1 hc
  cases hr
  have hl := (List.getElem?_eq_some_iff.1 hy).1
  obtain rfl := (List.getElem?_inj hl hn).1 (hy.trans (hi x).symm)
  exact front

theorem parses_times {read : Reader α} {pieces : α → List Piece} (h : Parses read pieces) {n : Nat}
    {bytes rest : List UInt8} {xs : List α} (hr : readTimes read n bytes = .ok (xs, rest)) :
    Front (xs.flatMap pieces) bytes rest ∧ xs.length = n := by
  induction n generalizing bytes xs with
  | zero =>
    cases hr
    exact ⟨.nil _, rfl⟩
  | succ n ih =>
    obtain ⟨x, mid, hx, hr⟩ := bind_eq_ok hr
    obtain ⟨xs, hxs, rfl⟩ := map_eq_ok hr
    obtain ⟨front, rfl⟩ := ih hxs
    exact ⟨(h hx).append front, rfl⟩

theorem parses_list {read : Reader α} {pieces : α → List Piece} (h : Parses read pieces) :
    Parses (readList read) (listPieces pieces) := by
  intro bytes xs rest hr
  obtain ⟨n, mid, hn, hr⟩ := bind_eq_ok hr
  obtain ⟨front, rfl⟩ := parses_times h hr
  exact (front_of_readInteger hn).append front

theorem parses_boolean : Parses readBoolean fun b => [.byte (if b then 1 else 0)] := by
  intro bytes b rest h
  obtain ⟨byte, mid, hb, hr⟩ := bind_eq_ok h
  cases bytes with
  | nil => cases hb
  | cons first bytes =>
    cases hb
    by_cases h0 : byte = 0
    · subst h0
      cases hr
      exact .bytes_append [0] _
    rw [if_neg h0] at hr
    by_cases h1 : byte = 1
    · subst h1
      cases hr
      exact .bytes_append [1] _
    · rw [if_neg h1] at hr
      cases hr

theorem readText_eq_ok {bytes rest : List UInt8} {cs : List Char}
    (h : readText bytes = .ok (cs, rest)) : ∃ raw, Text.decodeUtf8 raw = .ok cs ∧
      Front (.number raw.length :: raw.map .byte) bytes rest := by
  obtain ⟨n, mid, hn, hr⟩ := bind_eq_ok h
  obtain ⟨raw, last, hraw, hd⟩ := bind_eq_ok hr
  obtain ⟨rfl, rfl⟩ := readBytes_eq_ok hraw
  cases decoded : Text.decodeUtf8 raw with
  | error fault =>
    rw [decoded] at hd
    cases hd
  | ok cs =>
    rw [decoded] at hd
    cases hd
    exact ⟨raw, decoded, (front_of_readInteger hn).append (.bytes_append raw _)⟩

/-- A card has one text, and no other bytes stand for that text. -/
theorem parses_card : Parses readCard fun c => textPieces c.chars := by
  intro bytes c rest h
  obtain ⟨cs, mid, ht, hc⟩ := bind_eq_ok h
  obtain ⟨raw, decoded, front⟩ := readText_eq_ok ht
  cases parsed : Card.parse (String.ofList cs) with
  | error error =>
    rw [parsed] at hc
    cases hc
  | ok c =>
    rw [parsed] at hc
    cases hc
    obtain rfl : cs = c.chars := String.ofList_injective (Card.eq_text_of_parse parsed)
    have codes : raw = Text.encodeUtf8 c.chars := by
      rw [Text.encodeUtf8_of_ascii fun l hl => (Card.toNat_of_mem_chars hl).2]
      exact Text.eq_of_decodeFrom_ascii decoded fun l hl => Card.toNat_of_mem_chars hl
    rwa [codes] at front

theorem parses_shape : Parses readShape fun s => [.number s.index] :=
  parses_item Shape.all_getElem_index (by decide)

theorem parses_component : Parses readComponent componentPieces := by
  intro bytes c rest h
  obtain ⟨shape, mid, hs, h⟩ := bind_eq_ok h
  obtain ⟨size, mid', hn, h⟩ := bind_eq_ok h
  cases h
  obtain ⟨form, hl, -, -⟩ := readInteger_eq_ok hn
  have word : (UInt64.ofNat size).toNat = size :=
    UInt64.toNat_ofNat_of_lt' (Nat.lt_of_lt_of_le hl form.limit_le)
  rw [componentPieces, word]
  exact (parses_shape hs).append (front_of_readInteger hn)

theorem parses_id : Parses readId idPieces := by
  intro bytes id rest h
  obtain ⟨n, hn, rfl⟩ := map_eq_ok h
  obtain ⟨-, -, -, hl⟩ := readInteger_eq_ok hn
  rw [idPieces, UInt32.toNat_ofNat_of_lt' (hl rfl)]
  exact front_of_readInteger hn

theorem parses_phase : Parses readPhase phasePieces := by
  intro bytes p rest h
  obtain ⟨i, read, mid, hc, front, h⟩ := readChoice_eq_ok h
  match i with
  | 0 =>
    cases hc
    obtain ⟨shape, hs, rfl⟩ := map_eq_ok h
    exact front.append (parses_shape hs)
  | 1 =>
    cases hc
    obtain ⟨components, hs, rfl⟩ := map_eq_ok h
    exact front.append (parses_list parses_component hs)
  | _ + 2 => cases hc

theorem parses_guard : Parses readGuard guardPieces := by
  intro bytes g rest h
  obtain ⟨i, read, mid, hc, front, h⟩ := readChoice_eq_ok h
  match i with
  | 0 =>
    cases hc
    cases h
    exact front
  | 1 =>
    cases hc
    obtain ⟨c, hc, rfl⟩ := map_eq_ok h
    exact front.append (parses_card hc)
  | 2 =>
    cases hc
    obtain ⟨r, hr, rfl⟩ := map_eq_ok h
    exact front.append (parses_item Rank.all_getElem_index (by decide) hr)
  | 3 =>
    cases hc
    obtain ⟨k, hk, rfl⟩ := map_eq_ok h
    exact front.append (parses_item Color.all_getElem_index (by decide) hk)
  | 4 =>
    cases hc
    cases h
    exact front
  | _ + 5 => cases hc

theorem parses_transition : Parses readTransition transitionPieces := by
  intro bytes t rest h
  obtain ⟨g, mid, hg, h⟩ := bind_eq_ok h
  obtain ⟨id, hid, rfl⟩ := map_eq_ok h
  exact (parses_guard hg).append (parses_id hid)

theorem parses_state : Parses readState statePieces := by
  intro bytes s rest h
  obtain ⟨isFinal, mid, hf, h⟩ := bind_eq_ok h
  obtain ⟨transitions, ht, rfl⟩ := map_eq_ok h
  exact (parses_boolean hf).append (parses_list parses_transition ht)

theorem parses_graph : Parses read pieces := by
  intro bytes a rest h
  obtain ⟨phase, mid, hp, h⟩ := bind_eq_ok h
  obtain ⟨states, mid', hs, h⟩ := bind_eq_ok h
  obtain ⟨start, mid'', hi, h⟩ := bind_eq_ok h
  obtain ⟨finals, hf, rfl⟩ := map_eq_ok h
  exact (((parses_phase hp).append (parses_list parses_state hs)).append (parses_id hi)).append
    (parses_list parses_id hf)

end Snapshot

namespace Automaton

open Snapshot

variable {a : Automaton} {bytes part rest : List UInt8} {spelling : List Written}

/-- What can be spelled can be stored, as no number of a snapshot is larger than a machine word. -/
theorem storable_of_spells (h : Spells (pieces a) part spelling) : a.Storable where
  components cs hp := by
    apply h.lt_size
    simp [pieces, hp, phasePieces, listPieces]
  states := by
    apply h.lt_size
    simp [pieces, listPieces]
  transitions s hs := by
    apply h.lt_size
    have hm : .number s.transitions.length ∈ statePieces s := by simp [statePieces, listPieces]
    have := List.mem_flatMap.2 ⟨s, Array.mem_toList_iff.2 hs, hm⟩
    simp [pieces, listPieces, this]
  finals := by
    apply h.lt_size
    simp [pieces, listPieces]

/-- Of all the snapshots from which a graph is restored, the one that is written of it is among the
shortest, and it is the one that has no number in a longer form than need be. -/
theorem toBytes_canonical (restored : ofBytes bytes = .ok a) :
    ofBytes a.toBytes = .ok a ∧
    ∃ part rest, bytes = part ++ rest ∧ Snapshot.read bytes = .ok (a, rest) ∧
      a.toBytes.length ≤ part.length ∧
      (∃ spelling, Spells (pieces a) part spelling) ∧
      ∀ spelling, Spells (pieces a) part spelling →
        (a.toBytes = part ↔ ∀ w ∈ spelling, ¬w.Overlong) := by
  obtain ⟨⟨rest, read⟩, sound⟩ := ofBytes_eq_ok_iff.1 restored
  obtain ⟨part, spelling, rfl, spells⟩ := parses_graph read
  have written : (pieces a).flatMap Piece.write = a.toBytes := write_eq a
  refine ⟨?_, part, rest, rfl, read, ?_, ⟨spelling, spells⟩, fun spelling spells => ?_⟩
  · have again := (reads_toBytes (storable_of_spells spells)).whole []
    rw [List.append_nil] at again
    exact ofBytes_eq_ok_iff.2 ⟨⟨[], again⟩, sound⟩
  · rw [← written]
    exact spells.length_le
  · rw [← written]
    exact spells.write_eq_iff

/-- A snapshot of the ring in which the kind of the phase is written in three bytes. -/
def wideRing : List UInt8 :=
  [251, 1, 0, 1, 0, 251, 251, 0, 2, 0, 1, 0, 1, 1, 2, 1, 1, 83, 0, 4, 1, 0, 1, 1]

theorem toBytes_canonical_skipRing :
    ofBytes (wideRing ++ [99]) = .ok skipRing ∧ ofBytes skipRing.toBytes = .ok skipRing ∧
    skipRing.toBytes.length + 2 = wideRing.length ∧
    ∃ spelling, Spells (pieces skipRing) wideRing spelling ∧ ∃ w ∈ spelling, w.Overlong := by
  have restored : ofBytes (wideRing ++ [99]) = .ok skipRing := by decide
  have all : Snapshot.read (wideRing ++ [99]) = .ok (skipRing, [99]) := by decide
  obtain ⟨again, part, rest, split, read, -, ⟨spelling, spells⟩, tight⟩ :=
    toBytes_canonical restored
  obtain ⟨-, rfl⟩ := Prod.mk.inj (Except.ok.inj (read.symm.trans all))
  obtain rfl := List.append_cancel_right split
  have longer := mt (tight spelling spells).2 (by decide)
  refine ⟨restored, again, by decide, spelling, spells, ?_⟩
  simpa only [not_forall, Classical.not_not, exists_prop] using longer

end Automaton
end Meld
