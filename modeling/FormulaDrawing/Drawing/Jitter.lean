import FormulaDrawing.Binary.Arithmetic
import FormulaDrawing.Drawing.ChaCha

/-!
# Jitter

The small rotations that make glyphs look drawn by hand. A seed fixes an endless sequence of draws,
each uniform between `-jitterDegrees` and `jitterDegrees`: the seed is stretched to a key, and the
draws are words of the ChaCha stream of that key, scaled in 32 bit arithmetic.
-/

namespace FormulaDrawing.Jitter

/-- The greatest rotation in either direction. -/
def jitterDegrees : Single := 0.15

/-- The state after one step of the generator that stretches seeds. -/
def step (state : UInt64) : UInt64 := state * 6364136223846793005 + 11634580027462260723

/-- The output at a state: its high bits, rotated by its highest. -/
def output (state : UInt64) : UInt32 :=
  let x := (((state >>> 18) ^^^ state) >>> 27).toUInt32
  let r := (state >>> 59).toUInt32
  (x >>> r) ||| (x <<< ((32 - r) % 32))

/-- The state after `n` steps. -/
def stateAfter (seed : UInt64) (n : Nat) : UInt64 := n.repeat step seed

/-- The key of a seed: eight outputs in a row. -/
def key (seed : UInt64) : ChaCha.Key :=
  Vector.ofFn fun i : Fin 8 => output (stateAfter seed (i.val + 1))

/-- Twelve rounds. -/
def doubleRounds : Nat := 6

/-- The greatest number below one that a draw starts from. -/
def greatestUnit : Single := 1.0 - Binary.ofRat false (1 / (2 : Rat) ^ (23 : Nat))

/-- The width of the range over the greatest unit, which so reaches the upper end. -/
def scale : Single := (jitterDegrees - -jitterDegrees) / greatestUnit

/-- A number from zero to one, made of the high 23 bits of a word. -/
def unitOfWord (w : UInt32) : Single :=
  Binary.ofOrdinal false (0x3F800000 + (w >>> 9).toNat) - 1.0

/-- The draw that a word makes. -/
def degreesOfWord (w : UInt32) : Single := unitOfWord w * scale + -jitterDegrees

/-- The draw at a place of a seed's sequence. -/
def draw (seed : UInt64) (n : Nat) : Single :=
  degreesOfWord (ChaCha.word doubleRounds (key seed) n)

end FormulaDrawing.Jitter
