import FormulaDrawing.Hexadecimal

/-!
# Colours

Colours have a channel each for red, green, blue and opacity, and are written in hexadecimal after
a number sign. An opaque colour is written without its last channel.
-/

namespace FormulaDrawing

structure Color where
  red : UInt8
  green : UInt8
  blue : UInt8
  alpha : UInt8
deriving DecidableEq, Repr

namespace Color

/-- The colour of ink: a dark grey. -/
def ink : Color := ⟨0x1a, 0x1a, 0x1a, 0xff⟩

instance : Inhabited Color := ⟨ink⟩

/-- A channel of two digits. A plus sign may stand in place of the first digit. -/
def channel? (first second : Char) : Option UInt8 :=
  if first = '+' then (hexValue? second).map UInt8.ofNat
  else do
    let high ← hexValue? first
    let low ← hexValue? second
    pure (UInt8.ofNat (high * 16 + low))

/-- The colour of channels without the number sign; opaque if there are only three. -/
def ofDigits? : List Char → Option Color
  | [r, r', g, g', b, b'] => do
    pure ⟨← channel? r r', ← channel? g g', ← channel? b b', 0xff⟩
  | [r, r', g, g', b, b', a, a'] => do
    pure ⟨← channel? r r', ← channel? g g', ← channel? b b', ← channel? a a'⟩
  | _ => none

/-- The colour that a text writes. -/
def ofHex? (s : String) : Option Color :=
  match s.toList with
  | '#' :: digits => ofDigits? digits
  | _ => none

/-- The text of a colour. -/
def toHex (c : Color) : String :=
  String.ofList
    ('#' :: (hexByte c.red ++ hexByte c.green ++ hexByte c.blue
      ++ if c.alpha = 0xff then [] else hexByte c.alpha))

end Color

end FormulaDrawing
