import PropertyExpr.Location
/-!
# Why a code block is no expression: `errors::CpeError`

A cause says what is wrong; the error adds the bytes of the template it is about. All wording is derived
here: the message, the code, the hint and the label that marks the bytes.
-/
namespace PropertyExpr

/-- What is wrong with a block (the variants of `CpeError` with a span). -/
inductive SyntaxError.Cause where
  | unexpectedToken (expected found hint : String)
  | unexpectedCharacter (c : Char)
  | unterminatedString
  | invalidEscape (sequence : String)
  | integerOverflow (literal : String)
  | invalidRank
  | tooComplex (hint : String)
deriving DecidableEq, Repr, Inhabited

structure SyntaxError where
  cause : SyntaxError.Cause
  offset : Nat
  length : Nat
deriving DecidableEq, Repr, Inhabited

namespace SyntaxError

/-- The error with `cause` that marks `location`. -/
def mark (cause : Cause) (location : Location) : SyntaxError :=
  ⟨cause, location.offset, location.length⟩

/-- Start and end of the marked bytes. -/
def span (e : SyntaxError) : Nat × Nat := (e.offset, e.offset + e.length)

namespace Cause

def message : Cause → String
  | unexpectedToken .. => "unexpected token"
  | unexpectedCharacter _ => "unexpected character"
  | unterminatedString => "unterminated string"
  | invalidEscape _ => "invalid escape sequence"
  | integerOverflow _ => "integer literal out of range"
  | invalidRank => "invalid rank"
  | tooComplex _ => "expression too complex"

def code : Cause → String
  | unexpectedToken .. => "E0001"
  | unexpectedCharacter _ => "E0002"
  | unterminatedString => "E0003"
  | invalidEscape _ => "E0004"
  | integerOverflow _ => "E0005"
  | invalidRank => "E0006"
  | tooComplex _ => "E0007"

/-- What to do about a character that starts no token (`CpeError::unexpected_character`). -/
def characterHint (c : Char) : String :=
  if c = '\'' ∨ c = '\x60' then "use double quotes \"...\" for string literals"
  else if c = '\x7b' ∨ c = '\x7d' then
    "braces are only allowed as '\x7b\x7b' and '\x7d\x7d' around a code block"
  else if c = '%' then "supported operators are + - * /"
  else "'" ++ c.toString ++ "' is not valid inside a code block"

def hint : Cause → String
  | unexpectedToken _ _ hint => hint
  | unexpectedCharacter c => characterHint c
  | unterminatedString => "add a closing '\"' before the end of the block"
  | invalidEscape sequence =>
    "'" ++ sequence ++ "' is not a valid escape sequence; only \\\\ and \\\" are recognized"
  | integerOverflow _ => "integer literals must fit in a signed 64-bit integer"
  | invalidRank => "ranks are 1-based: the first row is [1]"
  | tooComplex hint => hint

/-- The text that marks the bytes in question. -/
def label : Cause → String
  | unexpectedToken expected found _ => "expected " ++ expected ++ ", found " ++ found
  | unexpectedCharacter c => "unexpected: '" ++ c.toString ++ "'"
  | unterminatedString => "string started here but never closed"
  | invalidEscape sequence => "invalid escape: " ++ sequence
  | integerOverflow literal => literal
  | invalidRank => "rank must be at least 1"
  | tooComplex _ => "limit reached here"

end Cause

def message (e : SyntaxError) : String := e.cause.message

def code (e : SyntaxError) : String := e.cause.code

def hint (e : SyntaxError) : String := e.cause.hint

def label (e : SyntaxError) : String := e.cause.label

end SyntaxError

end PropertyExpr
