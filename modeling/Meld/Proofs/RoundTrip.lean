import Meld.Proofs.Readback
import Meld.Snapshot.Restore

namespace Meld

namespace Snapshot

theorem reads_card (c : Card) : Reads readCard (writeText c.chars) c := by
  have ascii : ∀ l ∈ c.chars, l.toNat < 0x80 := fun l hl => (Card.toNat_of_mem_chars hl).2
  have bytes := Text.encodeUtf8_of_ascii ascii
  have hl : (Text.encodeUtf8 c.chars).length < UInt64.size := by
    rw [bytes, List.length_map]
    exact Nat.lt_of_le_of_lt c.length_chars_le (by decide)
  have decoded : Text.decodeUtf8 (Text.encodeUtf8 c.chars) = .ok c.chars := by
    rw [bytes]
    exact Text.decodeFrom_of_ascii ascii 0
  have length : Reads (readInteger .word64) (writeInteger (Text.encodeUtf8 c.chars).length)
      (Text.encodeUtf8 c.chars).length := reads_integer hl nofun
  have text : Reads readText (writeText c.chars) c.chars := by
    refine length.bind ((reads_bytes _).bind_nil ?_)
    rw [decoded]
    exact Reads.pure _
  refine text.bind_nil ?_
  rw [show Card.parse (String.ofList c.chars) = .ok c from c.parse_text]
  exact Reads.pure c

theorem reads_shape (s : Shape) : Reads readShape (writeShape s) s :=
  reads_item (by cases s <;> decide) s.all_getElem_index

theorem reads_component (c : Component) : Reads readComponent (writeComponent c) c := by
  have size : Reads (readInteger .word64) (writeInteger c.size.toNat) c.size.toNat :=
    reads_integer c.size.toNat_lt nofun
  have h : Reads readComponent (writeComponent c) ⟨c.shape, UInt64.ofNat c.size.toNat⟩ :=
    (reads_shape c.shape).bind (size.bind_nil (Reads.pure _))
  rwa [UInt64.ofNat_toNat] at h

theorem reads_id (id : StateId) : Reads readId (writeId id) id := by
  have h : Reads (readInteger .word32) (writeInteger id.toNat) id.toNat :=
    reads_integer (Nat.lt_trans id.toNat_lt (by decide)) fun _ => id.toNat_lt
  have hm := h.map (f := UInt32.ofNat)
  rwa [UInt32.ofNat_toNat] at hm

theorem reads_rank (r : Rank) : Reads (readChoice (Rank.all.map pure)) (writeInteger r.index) r :=
  reads_item (Nat.lt_of_lt_of_le (List.getElem?_eq_some_iff.1 r.all_getElem_index).1 (by decide))
    r.all_getElem_index

theorem reads_color (k : Color) :
    Reads (readChoice (Color.all.map pure)) (writeInteger k.index) k :=
  reads_item (by cases k <;> decide) k.all_getElem_index

theorem reads_guard (g : Guard) : Reads readGuard (writeGuard g) g := by
  have hi : g.index < UInt32.size := by cases g <;> exact of_decide_eq_true rfl
  cases g with
  | epsilon => exact reads_choice hi rfl (Reads.pure Guard.epsilon)
  | card c => exact reads_choice hi rfl (reads_card c).map
  | rank r => exact reads_choice hi rfl (reads_rank r).map
  | color k => exact reads_choice hi rfl (reads_color k).map
  | otherwise => exact reads_choice hi rfl (Reads.pure Guard.otherwise)

theorem reads_transition (t : Transition) : Reads readTransition (writeTransition t) t :=
  (reads_guard t.guard).bind (reads_id t.target).map

theorem reads_state {s : State} (h : s.transitions.length < UInt64.size) :
    Reads readState (writeState s) s :=
  (reads_boolean s.isFinal).bind (reads_list h fun t _ => reads_transition t).map

theorem reads_phase {p : Phase} (h : ∀ cs, p = .sized cs → cs.length < UInt64.size) :
    Reads readPhase (writePhase p) p := by
  cases p with
  | unsized shape => exact reads_choice (by decide) rfl (reads_shape shape).map
  | sized cs =>
    exact reads_choice (by decide) rfl (reads_list (h cs rfl) fun c _ => reads_component c).map

end Snapshot

namespace Automaton

/-- No list of the graph is longer than a machine word can count. -/
structure Storable (a : Automaton) : Prop where
  components : ∀ cs, a.phase = .sized cs → cs.length < UInt64.size
  states : a.states.size < UInt64.size
  transitions : ∀ s ∈ a.states, s.transitions.length < UInt64.size
  finals : a.finals.length < UInt64.size

open Snapshot

theorem reads_toBytes {a : Automaton} (h : a.Storable) : Reads Snapshot.read a.toBytes a := by
  have states : Reads (readList readState) (writeList writeState a.states.toList)
      a.states.toList := by
    refine reads_list (by rw [Array.length_toList]; exact h.states) fun s hs => ?_
    exact reads_state (h.transitions s (Array.mem_toList_iff.1 hs))
  have finals := reads_list h.finals fun id _ => reads_id id
  unfold toBytes write
  rw [List.append_assoc, List.append_assoc]
  exact (reads_phase h.components).bind
    (states.bind ((reads_id a.start).bind (finals.bind_nil (Reads.pure a))))

theorem ofBytes_of_read {bytes rest : List UInt8} {a : Automaton}
    (h : Snapshot.read bytes = .ok (a, rest)) :
    ofBytes bytes = (a.checkSound.mapError Snapshot.Error.corrupt).map fun _ => a := by
  simp only [ofBytes, h]
  cases a.checkSound <;> rfl

/-- A graph that is written can be read back, by itself or with more bytes behind it, and if it
is sound it is restored. Of a snapshot that is cut short, nothing is. -/
theorem ofBytes_toBytes {a : Automaton} (h : a.Storable) :
    (a.checkSound = .ok () → ofBytes a.toBytes = .ok a) ∧
    (∀ reason, a.checkSound = .error reason → ofBytes a.toBytes = .error (.corrupt reason)) ∧
    (∀ more, ofBytes (a.toBytes ++ more) = ofBytes a.toBytes) ∧
    ∀ part, part <+: a.toBytes → part ≠ a.toBytes →
      ∃ missing, ofBytes part = .error (.decode (.unexpectedEnd missing)) := by
  have reads := reads_toBytes h
  have whole (more : List UInt8) : ofBytes (a.toBytes ++ more) =
      (a.checkSound.mapError Snapshot.Error.corrupt).map fun _ => a :=
    ofBytes_of_read (reads.whole more)
  have exact_bytes := whole []
  rw [List.append_nil] at exact_bytes
  refine ⟨fun sound => ?_, fun reason unsound => ?_, fun more => ?_, ?_⟩
  · rw [exact_bytes, sound]
    rfl
  · rw [exact_bytes, unsound]
    rfl
  · rw [whole, exact_bytes]
  · rintro part ⟨rest, hp⟩ hne
    have hr : rest ≠ [] := by
      rintro rfl
      exact hne (by rw [← hp, List.append_nil])
    obtain ⟨missing, he⟩ := reads.cut part rest hp.symm hr
    exact ⟨missing, by simp only [ofBytes, he]⟩

/-- A skip card leads from the second state back to the first, and from there one goes on without a
card. -/
def skipRing : Automaton :=
  ⟨.sized [⟨.set, 251⟩], #[⟨false, [⟨.epsilon, 1⟩]⟩,
    ⟨true, [⟨.card Card.skip, 0⟩, ⟨.otherwise, 1⟩]⟩], 0, [1]⟩

theorem ofBytes_toBytes_skipRing :
    skipRing.Storable ∧ ofBytes skipRing.toBytes = .ok skipRing ∧
    ∃ missing, ofBytes (skipRing.toBytes.take 9) = .error (.decode (.unexpectedEnd missing)) := by
  have h : skipRing.Storable := by
    constructor
    · rintro cs ⟨⟩
      decide
    · decide
    · decide
    · decide
  obtain ⟨restored, -, -, cut⟩ := ofBytes_toBytes h
  exact ⟨h, restored rfl, cut _ (List.take_prefix 9 _) (by decide)⟩

end Automaton
end Meld
