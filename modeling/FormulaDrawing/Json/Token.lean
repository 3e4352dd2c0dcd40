import FormulaDrawing.Error
import FormulaDrawing.Hexadecimal
import FormulaDrawing.Json.Basic

/-!
# JSON tokens

A text is cut into tokens from left to right, up to the first thing that is none. Some tokens can
be passed over but not used: a number beyond the range of 64 bit floating point, and a string with
half of a surrogate pair. So every token of a value holds two results, one for a reader that wants
the value and one for a reader that skips it.
-/

namespace FormulaDrawing

inductive Token where
  | openBrace
  | closeBrace
  | openBracket
  | closeBracket
  | colon
  | comma
  | null
  | bool (b : Bool)
  /-- The number, or why it cannot be used; and why it cannot even be skipped. -/
  | number (value : Except JsonProblem Numeral) (skipped : Option JsonProblem)
  /-- The string, or why it cannot be used; and why it cannot even be skipped. -/
  | string (value : Except JsonProblem String) (skipped : Option JsonProblem)
  /-- No token. -/
  | broken (problem : JsonProblem)

namespace Token

-- powers of naturals are the core library's own, whatever monoids are in scope
attribute [local instance (high)] instPowNat

/-! ## Numbers -/

/-- The greatest integer kept exactly. -/
def greatestNatural : Nat := UInt64.size - 1

/-- The greatest exponent that is counted out. -/
def greatestExponent : Nat := 2 ^ (31 : Nat) - 1

def digitValue (c : Char) : Nat := c.toNat - '0'.toNat

/-- Append digits to a significand while it fits in 64 bits; the number of digits appended. -/
def appendDigits (significand : Nat) : List Char → Nat × Nat
  | [] => (significand, 0)
  | c :: cs =>
    let extended := significand * 10 + digitValue c
    if greatestNatural < extended then (significand, 0)
    else
      let (result, count) := appendDigits extended cs
      (result, count + 1)

/-- The power of ten of a decimal exponent, as a number of the format. -/
def powerOfTen (n : Nat) : Double := .ofNat (10 ^ n)

/-- The greatest decimal exponent of the format. -/
def greatestPower : Nat := 308

/-- A significand times a power of ten: one multiplication or division, after divisions by the
greatest power for an exponent far below; nothing if the result exceeds the format. A significand
of 64 bits is zero after two such divisions, so three rounds are enough. -/
def scale (x : Double) (exponent : Int) : Nat → Option Double
  | 0 => some x
  | rounds + 1 =>
    if exponent.natAbs ≤ greatestPower then
      if 0 ≤ exponent then
        let y := x * powerOfTen exponent.toNat
        if y.isInfinite then none else some y
      else some (x / powerOfTen (-exponent).toNat)
    else if x.isZero then some x
    else if 0 ≤ exponent then none
    else scale (x / powerOfTen greatestPower) (exponent + greatestPower) rounds

/-- The digits of an exponent, with its sign. -/
structure Exponent where
  negative : Bool
  digits : List Char

/-- A number written with a point or an exponent. Digits past 64 bits are dropped: those before
the point still count in the exponent. -/
def realValue (negative : Bool) (whole places : List Char) (exponent : Option Exponent) :
    Except JsonProblem Numeral :=
  let (significand, count) := appendDigits 0 whole
  let dropped := whole.length - count
  let (significand, appended) := appendDigits significand places
  let start : Int := (dropped : Int) - appended
  let signed (x : Double) : Numeral := .real (if negative then -x else x)
  let scaled (e : Int) : Except JsonProblem Numeral :=
    match scale (.ofNat significand) e 4 with
    | some x => .ok (signed x)
    | none => .error .malformed
  match exponent with
  | none => scaled start
  | some ⟨below, digits⟩ =>
    let n := digits.foldl (fun n c => n * 10 + digitValue c) 0
    if greatestExponent < n then
      if significand != 0 && !below then .error .malformed else .ok (signed (.zero false))
    else scaled (if below then start - n else start + n)

/-- A number written as digits alone: exact if it fits, and in floating point otherwise. Minus
zero is a floating point number too. -/
def integerValue (negative : Bool) (digits : List Char) : Except JsonProblem Numeral :=
  let (n, count) := appendDigits 0 digits
  if count < digits.length then realValue negative digits [] none
  else if !negative then .ok (.natural n)
  else if n = 0 || 2 ^ (63 : Nat) < n then .ok (.real (-(.ofNat n)))
  else .ok (.negative n)

/-- A number that breaks off: the text ended, which a skipping reader does not tell from a wrong
character. -/
def cutNumber (rest : List Char) : Token :=
  .number (.error (if rest.isEmpty then .ended else .malformed)) (some .malformed)

/-- The number of its parts: whole digits alone are an integer. -/
def numeralOf (negative : Bool) (whole : List Char) (places : Option (List Char))
    (exponent : Option Exponent) : Except JsonProblem Numeral :=
  match places, exponent with
  | none, none => integerValue negative whole
  | _, _ => realValue negative whole (places.getD []) exponent

/-- What follows the point of a number, or its whole digits: an optional exponent. -/
def scanExponent (negative : Bool) (whole : List Char) (places : Option (List Char)) :
    List Char → Token × List Char
  | [] => (.number (numeralOf negative whole places none) none, [])
  | c :: cs =>
    if c = 'e' || c = 'E' then
      let (below, cs) :=
        match cs with
        | '+' :: tail => (false, tail)
        | '-' :: tail => (true, tail)
        | _ => (false, cs)
      let digits := cs.takeWhile Char.isDigit
      if digits.isEmpty then (cutNumber cs, cs)
      else
        (.number (numeralOf negative whole places (some ⟨below, digits⟩)) none,
          cs.dropWhile Char.isDigit)
    else (.number (numeralOf negative whole places none) none, c :: cs)

/-- What follows the whole digits of a number: an optional point with places after it. -/
def scanPlaces (negative : Bool) (whole : List Char) : List Char → Token × List Char
  | '.' :: cs =>
    let places := cs.takeWhile Char.isDigit
    if places.isEmpty then (cutNumber cs, cs)
    else scanExponent negative whole (some places) (cs.dropWhile Char.isDigit)
  | cs => scanExponent negative whole none cs

/-- A number after its sign: a zero alone, or digits that start with none. -/
def scanNumber (negative : Bool) (cs : List Char) : Token × List Char :=
  match cs.takeWhile Char.isDigit with
  | [] => (cutNumber cs, cs)
  | '0' :: _ :: _ => (cutNumber cs, cs)
  | whole => scanPlaces negative whole (cs.dropWhile Char.isDigit)

/-! ## Strings -/

/-- Where a scan of a string stands. -/
inductive StringMode where
  | plain
  /-- After a backslash. -/
  | escape
  /-- In the four digits of a code unit, after the first half of a pair if there was one. -/
  | unit (digits : List Char) (half : Option Nat)
  /-- After the first half of a pair. -/
  | pair (half : Nat)
  /-- After the first half of a pair and a backslash. -/
  | pairEscape (half : Nat)

/-- The number that hexadecimal digits write, given last digit first. -/
def hexNumber? : List Char → Option Nat
  | [] => some 0
  | c :: cs => do
    let n ← hexNumber? cs
    let d ← hexValue? c
    pure (n * 16 + d)

/-- The character of an escape of one letter. -/
def escaped? (c : Char) : Option Char :=
  if c = '\x22' || c = '\\' || c = '/' then some c
  else if c = 'b' then some '\x08'
  else if c = 'f' then some '\x0c'
  else if c = 'n' then some '\n'
  else if c = 'r' then some '\r'
  else if c = 't' then some '\t'
  else none

/-- The size of a text in UTF-8. -/
def encodedSize (cs : List Char) : Nat := cs.foldr (fun c n => c.utf8Size + n) 0

/-- Whether a code unit is the first or the second half of a pair. -/
def isFirstHalf (n : Nat) : Bool := 0xD800 ≤ n && n ≤ 0xDBFF

def isSecondHalf (n : Nat) : Bool := 0xDC00 ≤ n && n ≤ 0xDFFF

/-- The string read so far, latest character first, and the first reason why it has no value. -/
structure StringScan where
  text : List Char
  fault : Option JsonProblem

namespace StringScan

/-- One more character. -/
def push (s : StringScan) (c : Char) : StringScan := { s with text := c :: s.text }

/-- One more reason against the value; the first one stays. -/
def blame (s : StringScan) : StringScan := { s with fault := s.fault <|> some .malformed }

/-- The whole string was scanned. -/
def complete (s : StringScan) : Token :=
  .string
    (match s.fault with
      | some problem => .error problem
      | none => .ok (String.ofList s.text.reverse))
    none

/-- The scan cannot go on. -/
def stop (s : StringScan) (problem : JsonProblem) : Token :=
  .string (.error (s.fault.getD problem)) (some problem)

/-- A code unit is complete. -/
def unit (s : StringScan) (n : Nat) : Option Nat → StringScan × StringMode
  | none =>
    if isFirstHalf n then (s, .pair n)
    else if isSecondHalf n then (s.blame, .plain)
    else (s.push (Char.ofNat n), .plain)
  | some half =>
    if isSecondHalf n then
      (s.push (Char.ofNat (0x10000 + (half - 0xD800) * 0x400 + (n - 0xDC00))), .plain)
    else (s.blame, .plain)

end StringScan

/-- A character that is not escaped: the scan goes on, or the string is done. -/
def stepPlain (s : StringScan) (c : Char) : (StringScan × StringMode) ⊕ Token :=
  if c = '\x22' then .inr s.complete
  else if c = '\\' then .inl (s, .escape)
  else if c.toNat < 0x20 then .inr (s.stop .malformed)
  else .inl (s.push c, .plain)

/-- A character after a backslash. -/
def stepEscape (s : StringScan) (c : Char) : (StringScan × StringMode) ⊕ Token :=
  if c = 'u' then .inl (s, .unit [] none)
  else
    match escaped? c with
    | some e => .inl (s.push e, .plain)
    | none => .inr (s.stop .malformed)

/-- One character of a string. The digits of a code unit are as many characters as fill four bytes,
so a character outside ASCII among them spoils the unit early. -/
def stepString (s : StringScan) (c : Char) : StringMode → (StringScan × StringMode) ⊕ Token
  | .plain => stepPlain s c
  | .escape => stepEscape s c
  | .unit digits half =>
    let digits := c :: digits
    if encodedSize digits < 4 then .inl (s, .unit digits half)
    else
      match digits.length == 4, hexNumber? digits with
      | true, some n => .inl (s.unit n half)
      | _, _ => .inr (s.stop .malformed)
  | .pair half => if c = '\\' then .inl (s, .pairEscape half) else stepPlain s.blame c
  | .pairEscape half => if c = 'u' then .inl (s, .unit [] (some half)) else stepEscape s.blame c

/-- Scan a string after its opening quote. -/
def scanString (s : StringScan) (mode : StringMode) : List Char → Token × List Char
  | [] => (s.stop .ended, [])
  | c :: cs =>
    match stepString s c mode with
    | .inl (s, mode) => scanString s mode cs
    | .inr token => (token, cs)

/-! ## Texts -/

/-- A word that starts as expected: its token, or what is wrong. -/
def scanWord (token : Token) : List Char → List Char → Token × List Char
  | [], cs => (token, cs)
  | _ :: _, [] => (.broken .ended, [])
  | w :: ws, c :: cs => if c = w then scanWord token ws cs else (.broken .malformed, cs)

/-- The white space of JSON. -/
def isSpace (c : Char) : Bool := c == ' ' || c == '\t' || c == '\n' || c == '\r'

/-- The token that begins with a character, and the text after it. -/
def scan (c : Char) (cs : List Char) : Token × List Char :=
  if c = '\x7b' then (.openBrace, cs)
  else if c = '\x7d' then (.closeBrace, cs)
  else if c = '[' then (.openBracket, cs)
  else if c = ']' then (.closeBracket, cs)
  else if c = ':' then (.colon, cs)
  else if c = ',' then (.comma, cs)
  else if c = '\x22' then scanString ⟨[], none⟩ .plain cs
  else if c = '-' then scanNumber true cs
  else if c.isDigit then scanNumber false (c :: cs)
  else if c = 'n' then scanWord .null ['u', 'l', 'l'] cs
  else if c = 't' then scanWord (.bool true) ['r', 'u', 'e'] cs
  else if c = 'f' then scanWord (.bool false) ['a', 'l', 's', 'e'] cs
  else (.broken .malformed, cs)

/-- Whether no token can follow. -/
def isLast : Token → Bool
  | .number _ skipped | .string _ skipped => skipped.isSome
  | .broken _ => true
  | _ => false

/-- The first `bound` tokens of a text. -/
def scanAll : Nat → List Char → List Token
  | 0, _ => []
  | _, [] => []
  | bound + 1, c :: cs =>
    if isSpace c then scanAll bound cs
    else
      let (token, rest) := scan c cs
      if token.isLast then [token] else token :: scanAll bound rest

/-- The tokens of a text, which has at most as many as characters. -/
def ofText (s : String) : List Token := scanAll s.length s.toList

end Token

end FormulaDrawing
