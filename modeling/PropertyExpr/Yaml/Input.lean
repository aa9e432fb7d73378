import PropertyExpr.Text.Bytes
/-!
# Reading YAML text

An input is what is left of a text and where it starts. Columns count characters from 0, and what indentation
means hangs on them; the index counts bytes. There are five kinds of line break; a carriage return and a line
feed together are one. A byte order mark is a character like any other, except at the start of a line.
-/
namespace PropertyExpr.Yaml

/-- Whether YAML allows a character in a text. -/
def isAllowed (c : Char) : Bool :=
  let n := c.toNat
  n = 0x9 || n = 0xA || n = 0xD || (0x20 ≤ n && n ≤ 0x7E) || n = 0x85 || (0xA0 ≤ n && n ≤ 0xD7FF) ||
    (0xE000 ≤ n && n ≤ 0xFFFD) || 0x10000 ≤ n

def isBreak (c : Char) : Bool := c = '\n' || c = '\r' || c = '\x85' || c = '\u2028' || c = '\u2029'

def isBlank (c : Char) : Bool := c = ' ' || c = '\t'

/-- A letter, a digit, a hyphen or an underscore. -/
def isWord (c : Char) : Bool := c.isAlphanum || c = '-' || c = '_'

structure Input where
  rest : List Char
  /-- How many characters the whole text has: no walk over what is left takes more steps. -/
  room : Nat
  /-- How many bytes stand before it. -/
  index : Nat
  line : Nat
  column : Nat
deriving Inhabited

namespace Input

def ofText (cs : List Char) : Input := ⟨cs, cs.length, 0, 0, 0⟩

/-- The character `n` places ahead. -/
def ahead? (i : Input) (n : Nat) : Option Char := i.rest[n]?

/-- Whether the next character satisfies `p`. -/
def at? (i : Input) (p : Char → Bool) : Bool := i.rest.head?.any p

/-- Whether the next character is `c`. -/
def starts (i : Input) (c : Char) : Bool := i.rest.head? == some c

/-- Whether the character `n` places ahead is a break or missing. -/
def breakOrEnd (i : Input) (n : Nat) : Bool := (i.ahead? n).all isBreak

/-- Whether the character `n` places ahead is a blank, a break or missing. -/
def blankOrEnd (i : Input) (n : Nat) : Bool := (i.ahead? n).all fun c => isBlank c || isBreak c

/-- The input behind `n` characters that are no breaks. -/
def skip (i : Input) (n : Nat) : Input :=
  { i with rest := i.rest.drop n, index := i.index + Text.byteLength (i.rest.take n), column := i.column + n }

/-- The longest run of characters that satisfy `p`, none of them a break, and the input behind it. -/
def takeWhile (i : Input) (p : Char → Bool) : List Char × Input :=
  let run := i.rest.takeWhile p
  (run, i.skip run.length)

def skipWhile (i : Input) (p : Char → Bool) : Input := (i.takeWhile p).2

/-- What a line break stands for, and the input behind it. Most breaks stand for a line feed. -/
def readBreak (i : Input) : List Char × Input :=
  match i.rest with
  | '\r' :: '\n' :: cs => (['\n'], ⟨cs, i.room, i.index + 2, i.line + 1, 0⟩)
  | c :: cs =>
    if isBreak c then
      ([if c = '\u2028' ∨ c = '\u2029' then c else '\n'], ⟨cs, i.room, i.index + c.utf8Size, i.line + 1, 0⟩)
    else ([], i)
  | [] => ([], i)

/-- The input behind a line break, if there is one. -/
def skipBreak (i : Input) : Input := i.readBreak.2

/-- Whether a line starts here with three times `c` and then a blank, a break or the end. -/
def isMarker (i : Input) (c : Char) : Bool :=
  i.column = 0 && i.rest.take 3 == [c, c, c] && i.blankOrEnd 3

/-- Whether a line starts here that begins or ends a document. -/
def isDocumentMarker (i : Input) : Bool := i.isMarker '-' || i.isMarker '.'

/-- The input behind blanks and a comment, which must reach to the end of the line, and behind that line. -/
def skipLineEnd? (i : Input) : Option Input :=
  let i := i.skipWhile isBlank
  let i := if i.starts '#' then i.skipWhile (!isBreak ·) else i
  if i.breakOrEnd 0 then some i.skipBreak else none

end Input

end PropertyExpr.Yaml
