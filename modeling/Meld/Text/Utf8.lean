namespace Meld.Text

/-- Bytes that are no UTF-8: those before `validUpTo` are, and of those after it the first
`wrongBytes` begin no character. There is no such count where a character is merely cut off. -/
structure Utf8Fault where
  validUpTo : Nat
  wrongBytes : Option Nat
  deriving DecidableEq, Repr

/-- A character being read: the value so far, the bytes seen and still owed, and the bounds on
the next one. -/
structure Pending where
  value : Nat
  seen : Nat
  owed : Nat
  low : Nat
  high : Nat

/-- What the first byte of a character announces. The bounds on the second byte exclude
over-long forms, surrogates and values past the last code point. -/
def Pending.ofLead? (b : Nat) : Option Pending :=
  if b < 0x80 then some ⟨b, 1, 0, 0x80, 0xBF⟩
  else if b < 0xC2 then none
  else if b < 0xE0 then some ⟨b - 0xC0, 1, 1, 0x80, 0xBF⟩
  else if b < 0xF0 then
    some ⟨b - 0xE0, 1, 2, if b = 0xE0 then 0xA0 else 0x80, if b = 0xED then 0x9F else 0xBF⟩
  else if b < 0xF5 then
    some ⟨b - 0xF0, 1, 3, if b = 0xF0 then 0x90 else 0x80, if b = 0xF4 then 0x8F else 0xBF⟩
  else none

def Pending.next? (p : Pending) (b : Nat) : Option Pending :=
  if p.low ≤ b ∧ b ≤ p.high then
    some ⟨p.value * 64 + (b - 0x80), p.seen + 1, p.owed - 1, 0x80, 0xBF⟩
  else none

def decodeFrom (start : Nat) : Option Pending → List UInt8 → Except Utf8Fault (List Char)
  | none, [] => .ok []
  | some _, [] => .error ⟨start, none⟩
  | p?, b :: bs =>
    let wrong := (p?.map (·.seen)).getD 1
    match (match p? with
      | none => Pending.ofLead? b.toNat
      | some p => p.next? b.toNat) with
    | none => .error ⟨start, some wrong⟩
    | some p =>
      if p.owed = 0 then (decodeFrom (start + p.seen) none bs).map (Char.ofNat p.value :: ·)
      else decodeFrom start (some p) bs

def decodeUtf8 (bytes : List UInt8) : Except Utf8Fault (List Char) := decodeFrom 0 none bytes

def encodeUtf8 (cs : List Char) : List UInt8 := cs.flatMap String.utf8EncodeChar

theorem decodeFrom_ascii (start : Nat) (b : UInt8) (bs : List UInt8) (h : b.toNat < 0x80) :
    decodeFrom start none (b :: bs) =
      (decodeFrom (start + 1) none bs).map (Char.ofNat b.toNat :: ·) := by
  simp [decodeFrom, Pending.ofLead?, h]

theorem encodeUtf8_of_ascii {cs : List Char} (h : ∀ c ∈ cs, c.toNat < 0x80) :
    encodeUtf8 cs = cs.map fun c => UInt8.ofNat c.toNat := by
  induction cs with
  | nil => rfl
  | cons c cs ih =>
    have hc : c.val.toNat ≤ 127 := Nat.le_of_lt_succ (h c List.mem_cons_self)
    have he : String.utf8EncodeChar c = [UInt8.ofNat c.toNat] := if_pos hc
    have hs := ih fun d hd => h d (List.mem_cons_of_mem c hd)
    rw [encodeUtf8, List.flatMap_cons, he, ← encodeUtf8, hs]
    rfl

theorem decodeFrom_of_ascii {cs : List Char} (h : ∀ c ∈ cs, c.toNat < 0x80) (start : Nat) :
    decodeFrom start none (cs.map fun c => UInt8.ofNat c.toNat) = .ok cs := by
  induction cs generalizing start with
  | nil => rfl
  | cons c cs ih =>
    have hc := h c List.mem_cons_self
    have hb : (UInt8.ofNat c.toNat).toNat = c.toNat :=
      UInt8.toNat_ofNat_of_lt' (Nat.lt_trans hc (by decide))
    rw [List.map_cons, decodeFrom_ascii _ _ _ (hb.symm ▸ hc), hb, Char.ofNat_toNat,
      ih fun d hd => h d (List.mem_cons_of_mem c hd)]
    rfl

end Meld.Text
