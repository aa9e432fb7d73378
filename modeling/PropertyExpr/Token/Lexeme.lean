import PropertyExpr.Decimal.Basic
import PropertyExpr.Identifier
import PropertyExpr.SyntaxError
import PropertyExpr.Token.Basic
/-!
# The characters of one token: `Lexer::next_token`

`Lexeme.read` takes the characters that make up the next token off a text that starts with no blank. It does
not look at places: a lexeme says what it read and what is left, and a fault says where in the lexeme it
lies.

Identifiers and integers are as long as possible. In a string a backslash escapes a backslash or a quote and
nothing else.
-/
namespace PropertyExpr

/-- Why the characters of a lexeme are no token: the marked bytes start `skipped` bytes into the lexeme. -/
structure Lexeme.Fault where
  cause : SyntaxError.Cause
  skipped : Nat
  length : Nat

structure Lexeme where
  /-- The characters read. -/
  text : List Char
  outcome : Except Lexeme.Fault Token.Kind
  /-- The characters behind them. -/
  rest : List Char

namespace Lexeme

/-- The tokens that are one character (`Lexer::next_token`). -/
def punctuation? : Char → Option Token.Kind
  | '[' => some .leftBracket
  | ']' => some .rightBracket
  | '(' => some .leftParen
  | ')' => some .rightParen
  | '.' => some .dot
  | '+' => some .plus
  | '-' => some .minus
  | '*' => some .star
  | '/' => some .slash
  | _ => none

/-- An identifier (`Lexer::lex_identifier`). -/
def ident (cs : List Char) : Lexeme where
  text := cs.takeWhile isIdentifierPart
  outcome := .ok (.ident (String.ofList (cs.takeWhile isIdentifierPart)))
  rest := cs.dropWhile isIdentifierPart

/-- A run of digits (`Lexer::lex_number`); values from 2^64 on are out of range. -/
def integer (cs : List Char) : Lexeme :=
  let digits := cs.takeWhile Char.isDigit
  let value := digitsValue digits
  { text := digits
    outcome :=
      if value < UInt64.size then .ok (.integer (UInt64.ofNat value))
      else .error ⟨.integerOverflow (String.ofList digits), 0, Text.byteLength digits⟩
    rest := cs.dropWhile Char.isDigit }

/-- How the inside of a string ends. -/
inductive StringEnd where
  | closed
  /-- The block ends first. -/
  | unterminated
  /-- A backslash stands before some other character. -/
  | badEscape (c : Char)

/-- The inside of a string, up to and with what ends it. -/
structure StringBody where
  value : List Char
  text : List Char
  ending : StringEnd
  rest : List Char

/-- Puts `c`, written as `raw`, before the value read so far. -/
def StringBody.prepend (c : Char) (raw : List Char) (body : StringBody) : StringBody :=
  { body with value := c :: body.value, text := raw ++ body.text }

def stringBody : List Char → StringBody
  | [] => ⟨[], [], .unterminated, []⟩
  | '"' :: cs => ⟨[], ['"'], .closed, cs⟩
  | ['\\'] => ⟨[], ['\\'], .unterminated, []⟩
  | '\\' :: c :: cs =>
    if c = '\\' ∨ c = '"' then (stringBody cs).prepend c ['\\', c]
    else ⟨[], ['\\', c], .badEscape c, cs⟩
  | c :: cs => (stringBody cs).prepend c [c]

/-- A string, of which the opening quote has been seen and `cs` follows it (`Lexer::lex_string`). -/
def string (cs : List Char) : Lexeme :=
  let body := stringBody cs
  let text := '"' :: body.text
  { text
    outcome := match body.ending with
      | .closed => .ok (.string (String.ofList body.value))
      | .unterminated => .error ⟨.unterminatedString, 0, Text.byteLength text⟩
      | .badEscape c =>
        let length := 1 + c.utf8Size
        .error ⟨.invalidEscape (String.ofList ['\\', c]), Text.byteLength text - length, length⟩
    rest := body.rest }

/-- The lexeme at the front of `c :: cs` (`Lexer::next_token`). A character that starts no token is marked but not
read. -/
def read (c : Char) (cs : List Char) : Lexeme :=
  if isIdentifierStart c then ident (c :: cs)
  else if c.isDigit then integer (c :: cs)
  else if c = '"' then string cs
  else match punctuation? c with
    | some kind => ⟨[c], .ok kind, cs⟩
    | none => ⟨[], .error ⟨.unexpectedCharacter c, 0, c.utf8Size⟩, c :: cs⟩

/-! ## What a lexeme reads -/

theorem stringBody_text_append (cs : List Char) :
    (stringBody cs).text ++ (stringBody cs).rest = cs := by
  fun_induction stringBody cs <;> simp_all [StringBody.prepend]

/-- A lexeme loses nothing: what it read and what is left make up the text. -/
theorem text_append_rest (c : Char) (cs : List Char) :
    (read c cs).text ++ (read c cs).rest = c :: cs := by
  unfold read
  split
  · simp [ident]
  split
  · simp [integer]
  split
  · rename_i h; simp [string, stringBody_text_append, h]
  split <;> simp

/-- Every lexeme that is a token has a character. -/
theorem text_ne_nil {c : Char} {cs : List Char} {kind : Token.Kind}
    (h : (read c cs).outcome = .ok kind) : (read c cs).text ≠ [] := by
  unfold read at h ⊢
  split
  · rename_i hc
    have : isIdentifierPart c := by
      simp only [isIdentifierStart, isIdentifierPart, Char.isAlphanum, Bool.or_eq_true] at hc ⊢
      grind
    simp [ident, this]
  split
  · rename_i hc; simp [integer, hc]
  split
  · simp [string]
  split
  · simp
  · simp_all

end Lexeme

end PropertyExpr
