import Meld.Snapshot.Reader

namespace Meld.Snapshot

def littleEndian : Nat → Nat → List UInt8
  | 0, _ => []
  | count + 1, n => UInt8.ofNat (n % 256) :: littleEndian count (n / 256)

def ofLittleEndian : List UInt8 → Nat
  | [] => 0
  | b :: bytes => b.toNat + 256 * ofLittleEndian bytes

/-- A number below 251 is a byte of its own. Others follow a byte that tells how long they are. -/
def writeInteger (n : Nat) : List UInt8 :=
  if n < 251 then [UInt8.ofNat n]
  else if n < UInt16.size then 251 :: littleEndian 2 n
  else if n < UInt32.size then 252 :: littleEndian 4 n
  else 253 :: littleEndian 8 n

def readLittleEndian (count : Nat) : Reader Nat := ofLittleEndian <$> readBytes count

/-- The width that the refusal of a number names. Where nine bytes are there, as many as the longest
64-bit number takes, it is read at one stroke, and refused as a 32-bit one. -/
def Width.refused (expected : Width) (available : Nat) : Width :=
  if expected = .word64 && 9 ≤ available then .word32 else expected

/-- Numbers may be written longer than they need be, but not longer than what is expected. -/
def readInteger (expected : Width) : Reader Nat := do
  let bytes ← get
  let first ← readByte
  if first < 251 then pure first.toNat
  else if first = 251 then readLittleEndian 2
  else if first = 252 then readLittleEndian 4
  else if first = 253 then
    if expected = .word32 then throw (.wrongInteger expected .word64) else readLittleEndian 8
  else
    let found := if first = 254 then .word128 else .reserved
    throw (.wrongInteger (expected.refused bytes.length) found)

theorem length_littleEndian (count n : Nat) : (littleEndian count n).length = count := by
  induction count generalizing n <;> simp_all [littleEndian]

end Meld.Snapshot
