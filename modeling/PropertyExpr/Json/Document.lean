import PropertyExpr.Json.Token
/-!
# JSON documents

A document is the structure of a JSON text, its numbers and strings not yet read. It keeps what a value
forgets, so that parts of a text which are passed over need to be well written only. `Document.front?` reads
the tokens one by one and keeps the open arrays and objects on a stack; what stands behind the document is left
unread.
-/
namespace PropertyExpr.Json

inductive Document where
  | null
  | bool (value : Bool)
  | number (literal : NumberLiteral)
  | string (units : List StringUnit)
  | array (items : List Document)
  | object (fields : List (List StringUnit × Document))
deriving Inhabited

namespace Document

/-- An array or object that is open, what it holds so far being the latest first. -/
inductive Frame where
  | array (items : List Document)
  /-- An object, with the key that waits for its value. -/
  | object (fields : List (List StringUnit × Document)) (key : List StringUnit)

/-- What may come next. -/
inductive State where
  | value
  /-- A value, or the end of the array that has just been opened. -/
  | valueOrClose
  /-- A key of an object with the given fields. -/
  | key (fields : List (List StringUnit × Document))
  /-- A key, or the end of the object that has just been opened. -/
  | keyOrClose
  | colon (fields : List (List StringUnit × Document)) (key : List StringUnit)
  /-- A comma or a closing bracket behind a value; at the top, the end of the text. -/
  | after (value : Document)

/-- The state behind a token that starts a value, and what the token opens. -/
def start? : Token → Option (State × List Frame)
  | .null => some (.after .null, [])
  | .bool b => some (.after (.bool b), [])
  | .number literal => some (.after (.number literal), [])
  | .string units => some (.after (.string units), [])
  | .openArray => some (.valueOrClose, [.array []])
  | .openObject => some (.keyOrClose, [])
  | _ => none

/-- The state behind a token, and the arrays and objects that are open then. -/
def next? : State → List Frame → Token → Option (State × List Frame)
  | .after value, .array items :: frames, .comma => some (.value, .array (value :: items) :: frames)
  | .after value, .array items :: frames, .closeArray => some (.after (.array (value :: items).reverse), frames)
  | .after value, .object fields key :: frames, .comma => some (.key ((key, value) :: fields), frames)
  | .after value, .object fields key :: frames, .closeObject =>
    some (.after (.object ((key, value) :: fields).reverse), frames)
  | .key fields, frames, .string key => some (.colon fields key, frames)
  | .keyOrClose, frames, .string key => some (.colon [] key, frames)
  | .keyOrClose, frames, .closeObject => some (.after (.object []), frames)
  | .colon fields key, frames, .colon => some (.value, .object fields key :: frames)
  | .valueOrClose, .array [] :: frames, .closeArray => some (.after (.array []), frames)
  | .value, frames, token | .valueOrClose, frames, token =>
    (start? token).map fun (state, opened) => (state, opened ++ frames)
  | _, _, _ => none

/-- The document that a state leads to, of which `room` bounds the number of tokens, and what follows. -/
def read? : (room : Nat) → State → List Frame → List Char → Option (Document × List Char)
  | _, .after value, [], cs => some (value, cs)
  | 0, _, _, _ => none
  | room + 1, state, frames, cs =>
    match Token.first? cs with
    | none => none
    | some (token, rest) =>
      match next? state frames token with
      | none => none
      | some (state, frames) => read? room state frames rest

/-- The document at the front of a text, and what follows. A token has a character at least. -/
def front? (cs : List Char) : Option (Document × List Char) := read? cs.length .value [] cs

/-- The document that a text is. -/
def ofText? (cs : List Char) : Option Document :=
  match front? cs with
  | some (d, rest) => if rest.all Token.isBlank then some d else none
  | none => none

end Document

end PropertyExpr.Json
