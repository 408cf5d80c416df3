namespace Meld.Random

abbrev Block := Vector UInt32 16

def rotateLeft (x : UInt32) (k : UInt32) : UInt32 := (x <<< k) ||| (x >>> (32 - k))

def quarterRound (a b c d : Fin 16) (v : Block) : Block :=
  let v := v.set a (v[a] + v[b])
  let v := v.set d (rotateLeft (v[d] ^^^ v[a]) 16)
  let v := v.set c (v[c] + v[d])
  let v := v.set b (rotateLeft (v[b] ^^^ v[c]) 12)
  let v := v.set a (v[a] + v[b])
  let v := v.set d (rotateLeft (v[d] ^^^ v[a]) 8)
  let v := v.set c (v[c] + v[d])
  v.set b (rotateLeft (v[b] ^^^ v[c]) 7)

def doubleRound (v : Block) : Block :=
  let v := quarterRound 0 4 8 12 v
  let v := quarterRound 1 5 9 13 v
  let v := quarterRound 2 6 10 14 v
  let v := quarterRound 3 7 11 15 v
  let v := quarterRound 0 5 10 15 v
  let v := quarterRound 1 6 11 12 v
  let v := quarterRound 2 7 8 13 v
  quarterRound 3 4 9 14 v

def initialBlock (key : Vector UInt32 8) (counter : UInt64) : Block :=
  #v[0x61707865, 0x3320646e, 0x79622d32, 0x6b206574,
    key[0], key[1], key[2], key[3], key[4], key[5], key[6], key[7],
    counter.toUInt32, (counter >>> 32).toUInt32, 0, 0]

/-- ChaCha with twelve rounds, a 64-bit block counter and a zero nonce. -/
def keystreamBlock (key : Vector UInt32 8) (counter : UInt64) : Block :=
  let start := initialBlock key counter
  Vector.zipWith (· + ·) (Nat.repeat doubleRound 6 start) start

def keystream (key : Vector UInt32 8) (i : Nat) : UInt32 :=
  (keystreamBlock key (UInt64.ofNat (i / 16)))[i % 16]

def seedState (seed : UInt64) : Nat → UInt64
  | 0 => seed
  | i + 1 => seedState seed i * 6364136223846793005 + 11634580027462260723

/-- The output of the key generator in a state: a PCG32 word. -/
def seedWord (state : UInt64) : UInt32 :=
  let turns : UInt32 := (state >>> 59).toUInt32
  rotateLeft (((state >>> 18) ^^^ state) >>> 27).toUInt32 (32 - turns)

def seedKey (seed : UInt64) : Vector UInt32 8 :=
  Vector.ofFn fun i => seedWord (seedState seed (i + 1))

def words (seed : UInt64) : Nat → UInt32 := keystream (seedKey seed)

end Meld.Random
