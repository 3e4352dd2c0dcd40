import FormulaDrawing.Json.Token

/-!
# Reading JSON

Values are built from tokens by a machine whose stack holds the containers that are still open.
The same machine skips values: then it takes every token that can be passed over, and what it
builds does not matter.

`Json.read` reads a whole text. The first problem from the left is the one reported.
-/

namespace FormulaDrawing.Json

/-- An open container: what it holds so far, and in an object the key whose value comes next.
Latest first. -/
inductive Container where
  | array (items : List Json)
  | object (members : List (String × Json)) (key : String)

/-- What may come next in the innermost container. -/
inductive Expected where
  | value
  /-- The first item of an array, or its end. -/
  | valueOrEnd
  | key
  /-- The first key of an object, or its end. -/
  | keyOrEnd
  | colon
  /-- A comma, or the end of the container. -/
  | comma
deriving DecidableEq

/-- What is under construction. -/
structure Builder where
  stack : List Container
  expected : Expected

/-- After a token: more to come, or a whole value. -/
inductive Progress where
  | more (b : Builder)
  | whole (value : Json)

namespace Builder

/-- Before a value. -/
def initial : Builder := ⟨[], .value⟩

/-- A member takes the place of an earlier one with its key. -/
def addMember (members : List (String × Json)) (key : String) (value : Json) :
    List (String × Json) :=
  (key, value) :: members.filter fun m => m.1 != key

/-- A value is complete. -/
def place (value : Json) : List Container → Progress
  | [] => .whole value
  | .array items :: stack => .more ⟨.array (value :: items) :: stack, .comma⟩
  | .object members key :: stack =>
    .more ⟨.object (addMember members key value) key :: stack, .comma⟩

/-- A token where a value is expected. With `skipping`, values without a use are passed over. -/
def takeValue (skipping : Bool) (stack : List Container) : Token → Except JsonProblem Progress
  | .null => .ok (place .null stack)
  | .bool b => .ok (place (.bool b) stack)
  | .number value skipped =>
    match value, skipping, skipped with
    | .ok n, _, _ => .ok (place (.number n) stack)
    | .error problem, false, _ => .error problem
    | .error _, true, some problem => .error problem
    | .error _, true, none => .ok (place .null stack)
  | .string value skipped =>
    match value, skipping, skipped with
    | .ok s, _, _ => .ok (place (.string s) stack)
    | .error problem, false, _ => .error problem
    | .error _, true, some problem => .error problem
    | .error _, true, none => .ok (place .null stack)
  | .openBracket => .ok (.more ⟨.array [] :: stack, .valueOrEnd⟩)
  | .openBrace => .ok (.more ⟨.object [] "" :: stack, .keyOrEnd⟩)
  | .broken problem => .error problem
  | .closeBrace | .closeBracket | .colon | .comma => .error .malformed

/-- A token where a key is expected. -/
def takeKey (skipping : Bool) (stack : List Container) : Token → Except JsonProblem Progress
  | .string value skipped =>
    let named (key : String) : Except JsonProblem Progress :=
      match stack with
      | .object members _ :: stack => .ok (.more ⟨.object members key :: stack, .colon⟩)
      | _ => .error .malformed
    match value, skipping, skipped with
    | .ok key, _, _ => named key
    | .error problem, false, _ => .error problem
    | .error _, true, some problem => .error problem
    | .error _, true, none => named ""
  | _ => .error .malformed

/-- A token that should end the innermost container. -/
def takeEnd : List Container → Token → Except JsonProblem Progress
  | .array items :: stack, .closeBracket => .ok (place (.array items.reverse) stack)
  | .object members _ :: stack, .closeBrace => .ok (place (.object members.reverse) stack)
  | _, _ => .error .malformed

/-- One token. -/
def take (skipping : Bool) (b : Builder) (t : Token) : Except JsonProblem Progress :=
  match b.expected, t with
  | .value, _ => takeValue skipping b.stack t
  | .valueOrEnd, .closeBracket => takeEnd b.stack t
  | .valueOrEnd, _ => takeValue skipping b.stack t
  | .key, _ => takeKey skipping b.stack t
  | .keyOrEnd, .closeBrace => takeEnd b.stack t
  | .keyOrEnd, _ => takeKey skipping b.stack t
  | .colon, .colon => .ok (.more ⟨b.stack, .value⟩)
  | .colon, _ => .error .malformed
  | .comma, .comma =>
    match b.stack with
    | .array _ :: _ => .ok (.more ⟨b.stack, .value⟩)
    | .object _ _ :: _ => .ok (.more ⟨b.stack, .key⟩)
    | [] => .error .malformed
  | .comma, _ => takeEnd b.stack t

end Builder

/-- Build a value from tokens, which must be the whole text. -/
def readTokens (b : Builder) : List Token → Except JsonProblem Json
  | [] => .error .ended
  | t :: ts =>
    match b.take false t with
    | .error problem => .error problem
    | .ok (.more b) => readTokens b ts
    | .ok (.whole value) => if ts.isEmpty then .ok value else .error .malformed

/-- The value of a text. -/
def read (s : String) : Except JsonProblem Json := readTokens .initial (Token.ofText s)

end FormulaDrawing.Json
