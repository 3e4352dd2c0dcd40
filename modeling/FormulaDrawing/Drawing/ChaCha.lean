/-!
# The ChaCha stream

A block of sixteen words is mixed from constants, a key and a counter, and added to what it was
mixed from. The blocks of successive counters are an endless stream of random words.
-/

namespace FormulaDrawing.ChaCha

abbrev Block := Vector UInt32 16

abbrev Key := Vector UInt32 8

def rotateLeft (x : UInt32) (n : UInt32) : UInt32 := (x <<< n) ||| (x >>> (32 - n))

/-- Mix four words. -/
def quarterRound (v : Block) (a b c d : Fin 16) : Block :=
  let v := v.set a (v[a] + v[b])
  let v := v.set d (rotateLeft (v[d] ^^^ v[a]) 16)
  let v := v.set c (v[c] + v[d])
  let v := v.set b (rotateLeft (v[b] ^^^ v[c]) 12)
  let v := v.set a (v[a] + v[b])
  let v := v.set d (rotateLeft (v[d] ^^^ v[a]) 8)
  let v := v.set c (v[c] + v[d])
  v.set b (rotateLeft (v[b] ^^^ v[c]) 7)

/-- A round over the columns of a block, and one over its diagonals. -/
def doubleRound (v : Block) : Block :=
  let v := quarterRound v 0 4 8 12
  let v := quarterRound v 1 5 9 13
  let v := quarterRound v 2 6 10 14
  let v := quarterRound v 3 7 11 15
  let v := quarterRound v 0 5 10 15
  let v := quarterRound v 1 6 11 12
  let v := quarterRound v 2 7 8 13
  quarterRound v 3 4 9 14

/-- The block of a counter before it is mixed: the constants, the key, the counter and zeros. -/
def initialBlock (key : Key) (counter : UInt64) : Block :=
  (#v[0x61707865, 0x3320646e, 0x79622d32, 0x6b206574] : Vector UInt32 4) ++ key
    ++ (#v[counter.toUInt32, (counter >>> 32).toUInt32, 0, 0] : Vector UInt32 4)

/-- The block of a counter, mixed in `doubleRounds` double rounds. -/
def block (doubleRounds : Nat) (key : Key) (counter : UInt64) : Block :=
  let v := initialBlock key counter
  let mixed := doubleRounds.repeat doubleRound v
  Vector.ofFn fun i => mixed[i] + v[i]

/-- The word at a place of the stream. -/
def word (doubleRounds : Nat) (key : Key) (n : Nat) : UInt32 :=
  (block doubleRounds key (UInt64.ofNat (n / 16)))[(⟨n % 16, Nat.mod_lt _ (by decide)⟩ : Fin 16)]

end FormulaDrawing.ChaCha
