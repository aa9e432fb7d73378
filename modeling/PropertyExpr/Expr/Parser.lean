import PropertyExpr.Expr.Basic
import PropertyExpr.Number.Int64
import PropertyExpr.Token.Cursor
/-!
# Expressions from tokens: `parser`

```text
sum     := product (('+' | '-') product)*
product := factor (('*' | '/') factor)*
factor  := integer | '-' factor | '(' sum ')' | string | reference
```

A minus sign before an integer makes a negative literal, a minus sign before a literal in parentheses or
behind further signs negates it, and any other `-e` is the tree `0 - e`. At most `maxDepth` parentheses and
signs nest, and a tree has at most `maxOperators` operators.

The parser reads a row of tokens by position. Past the end of the row the last token stands for every
position, so a row need not close with an end token. What a run leaves behind (`Progress`) is where the next
one starts. The two limits also bound the recursion: `factorAt` recurses on the levels still allowed, `chain`
on the operators still allowed. What reads more than one token is written for any monad that the operations on
single tokens run in, so the same text can be run on a stack or with a record of what it does.
-/
namespace PropertyExpr.Expr

/-- How many parentheses and minus signs may nest (`MAX_PARSE_DEPTH`). -/
def maxDepth : Nat := 128

/-- How many operators an expression may have (`MAX_EXPR_NODES`). -/
def maxOperators : Nat := 256

namespace Parser

/-- Where a parser stands (`pos`, `depth` and `nodes` of `Parser`): the position in the row, the levels open, and the
operators built so far, those of failed and earlier runs included. -/
structure Progress where
  position : Nat
  depth : Nat
  operators : Nat
deriving DecidableEq, Repr, Inhabited

/-- A parser that has read nothing (`Parser::new`). -/
def Progress.start : Progress := ⟨0, 0, 0⟩

/-- Why a run ends without a tree. -/
inductive Stop where
  | refused (error : SyntaxError)
  /-- The position has run past the end of a row without an end token, so the token before it, at which the
  marked bytes of an error would end, does not exist. Only `cause` and the `start` of those bytes are known. -/
  | overrun (cause : SyntaxError.Cause) (start : Location)
deriving DecidableEq, Repr

end Parser

/-- A parser run: it changes its progress whether it succeeds or stops. -/
abbrev Parser := EStateM Parser.Stop Parser.Progress

namespace Parser

/-- The token that is current at `position`. An empty row counts as an end token at its start. -/
def tokenAt (tokens : Array Token) (position : Nat) : Token :=
  tokens[position]?.getD (tokens.back?.getD ⟨.blockEnd, Location.origin⟩)

variable (tokens : Array Token)

/-- The current token (`Parser::current`). -/
def current : Parser Token := do return tokenAt tokens (← get).position

/-- Goes on to the next token (`Parser::advance`); the end token is never passed. -/
def advance : Parser Unit := do
  if (← current tokens).kind ≠ .blockEnd then
    modify fun s => { s with position := s.position + 1 }

/-- The place of the token before the position, if there is one (`Parser::previous_location`); at the start, that of
the first token. -/
def previousLocation? : Parser (Option Location) := do
  let s ← get
  if s.position = 0 then return some (← current tokens).location
  else return tokens[s.position - 1]?.map Token.location

def refuse {α : Type} (cause : SyntaxError.Cause) (location : Location) : Parser α :=
  throw (.refused (.mark cause location))

/-- Refuses the current token where `expected` should stand (`Parser::error_unexpected`). -/
def unexpected {α : Type} (expected : String) : Parser α := do
  let s ← get
  let token ← current tokens
  let hint := match token.kind with
    | .ident _ => if 0 < s.position then "references look like name[rank].field" else "check syntax"
    | .blockEnd => "the expression is incomplete"
    | _ => "check syntax"
  refuse (.unexpectedToken expected token.kind.display hint) token.location

/-- Passes a token of one kind, which carries no value (`Parser::expect`). -/
def expect (kind : Token.Kind) : Parser Unit := do
  if (← current tokens).kind = kind then advance tokens
  else unexpected tokens ("'" ++ kind.display ++ "'")

def tooDeep : SyntaxError.Cause := .tooComplex s!"expressions may nest at most {maxDepth} levels"

def tooManyOperators : SyntaxError.Cause :=
  .tooComplex s!"expressions may contain at most {maxOperators} operators"

/-- Opens one more level (`Parser::enter`). -/
def enter : Parser Unit := do
  let s ← get
  if s.depth < maxDepth then set { s with depth := s.depth + 1 }
  else refuse tooDeep (← current tokens).location

/-- Closes the level opened last. -/
def leave : Parser Unit := modify fun s => { s with depth := s.depth - 1 }

/-- Counts the operator written at `location` (`Parser::count_node`). -/
def charge (location : Location) : Parser Unit := do
  modify fun s => { s with operators := s.operators + 1 }
  if maxOperators < (← get).operators then refuse tooManyOperators location

/-- Passes an identifier (`Parser::expect_ident`). -/
def identifier (expected : String) : Parser String := do
  match (← current tokens).kind with
  | .ident name => advance tokens; return name
  | _ => unexpected tokens expected

/-- Ends a run whose error cannot be marked in full. -/
def breakOff {α : Type} (cause : SyntaxError.Cause) (start : Location) : Parser α := throw (.overrun cause start)

/-- The operators that join products (`Parser::parse_additive`). -/
def sumOperator? : Token.Kind → Option Operator
  | .plus => some .add
  | .minus => some .sub
  | _ => none

/-- The operators that join factors (`Parser::parse_multiplicative`). -/
def productOperator? : Token.Kind → Option Operator
  | .star => some .mul
  | .slash => some .div
  | _ => none

section
variable {m : Type → Type} [Monad m] [MonadLiftT Parser m] [MonadFinally m]

/-- Runs `p` one level deeper. The level is closed again however `p` ends. -/
def nested {α : Type} (p : m α) : m α := do
  enter tokens
  try p finally leave

/-- What follows the name of a reference (`Parser::parse_reference`): `[rank].field`. -/
def referenceTail (name : String) : m Expr := do
  expect tokens .leftBracket
  let token ← current tokens
  let rank ← match token.kind with
    | .integer n =>
      if n = 0 then refuse .invalidRank token.location
      else match Number.int64? n.toNat with
        | some rank => pure rank
        | none => refuse (.integerOverflow (toString n.toNat)) token.location
    | _ => unexpected tokens "a rank"
  advance tokens
  expect tokens .rightBracket
  expect tokens .dot
  let field ← identifier tokens "a field name"
  return .ref ⟨name, rank, field⟩

/-- A factor without a sign (`Parser::parse_primary`). Behind a parenthesis stands what `sum` reads. -/
def primary (sum : m Expr) : m Expr := do
  let token ← current tokens
  match token.kind with
  | .integer n =>
    match Number.int64? n.toNat with
    | some value => advance tokens; return .number value
    | none => refuse (.integerOverflow (toString n.toNat)) token.location
  | .string s => advance tokens; return .string s
  | .ident name => advance tokens; referenceTail tokens name
  | .leftParen =>
    advance tokens
    let e ← nested tokens sum
    expect tokens .rightParen
    return e
  | _ => unexpected tokens "a number, string, reference or '('"

/-- A factor behind a minus sign at `sign`: an integer, to which the sign applies before its range is checked, or
what `operand` reads. -/
def negation (operand : m Expr) (sign : Location) : m Expr := do
  let token ← current tokens
  match token.kind with
  | .integer n =>
    advance tokens
    match Number.int64? (-n.toNat) with
    | some value => return .number value
    | none => refuse (.integerOverflow ("-" ++ toString n.toNat)) (sign.spanTo token.location)
  | _ =>
    match ← nested tokens operand with
    | .number n =>
      match Number.int64? (-n.toInt) with
      | some value => return .number value
      | none =>
        let cause := .integerOverflow ("-(" ++ toString n.toInt ++ ")")
        match ← previousLocation? tokens with
        | some last => refuse cause (sign.spanTo last)
        | none => breakOff cause sign
    | operand =>
      charge sign
      return .binary .sub (.number 0) operand

/-- A factor (`Parser::parse_unary`). What nests in it is read by `sum` and `operand`, one level deeper. -/
def factor (sum operand : m Expr) : m Expr := do
  let token ← current tokens
  if token.kind = .minus then
    advance tokens
    negation tokens operand token.location
  else primary tokens sum

/-- One turn of a chain: behind `left` an operator and its operand, and then what `others` makes of the tree up to
there. -/
def link (operator? : Token.Kind → Option Operator) (operand : m Expr) (others : Location → Expr → m Expr)
    (left : Expr) : m Expr := do
  let token ← current tokens
  match operator? token.kind with
  | none => return left
  | some op =>
    advance tokens
    let right ← operand
    charge token.location
    others token.location (.binary op left right)

/-- What `sum` reads, if all tokens up to the end token belong to it (`Parser::parse`). -/
def whole (sum : m Expr) : m Expr := do
  let e ← sum
  if (← current tokens).kind = .blockEnd then return e
  else unexpected tokens "an operator or the end of the block"

/-- Operands joined by operators, grouped to the left (the loops of `Parser::parse_additive` and
`Parser::parse_multiplicative`): `left` is what has been read, and `allowance` bounds the operators to come. -/
def chain (operator? : Token.Kind → Option Operator) (operand : m Expr) : (allowance : Nat) → (left : Expr) → m Expr
  | 0 => link tokens operator? operand fun location _ => refuse tooManyOperators location
  | allowance + 1 => link tokens operator? operand fun _ => chain operator? operand allowance

/-- Factors joined by `*` and `/` (`Parser::parse_multiplicative`). -/
def product (factor : m Expr) : m Expr := do
  chain tokens productOperator? factor maxOperators (← factor)

/-- Products joined by `+` and `-` (`Parser::parse_additive`). -/
def sum (factor : m Expr) : m Expr := do
  chain tokens sumOperator? (product tokens factor) maxOperators (← product tokens factor)

/-- A factor with `room` levels left below it. -/
def factorAt : (room : Nat) → m Expr
  | 0 => factor tokens (sum tokens full) full
  | room + 1 => factor tokens (sum tokens (factorAt room)) (factorAt room)
where
  /-- No level is left. -/
  full : m Expr := do refuse tooDeep (← current tokens).location

/-- One expression that all tokens up to the end token belong to. -/
def expression : m Expr := whole tokens (sum tokens (factorAt tokens maxDepth))

end

/-- One run over `tokens` from `progress`, and where it leaves the parser (`Parser::parse`). -/
def parse (tokens : Array Token) (progress : Progress) : Except Stop Expr × Progress :=
  match (expression tokens : Parser Expr) progress with
  | .ok e progress => (.ok e, progress)
  | .error stop progress => (.error stop, progress)

/-- What went wrong, marked as far as it can be. -/
def Stop.toSyntaxError : Stop → SyntaxError
  | .refused error => error
  | .overrun cause start => .mark cause start

end Parser

/-- The expression that the rest of a block, from `cursor` on, is. -/
def parseAt (cursor : Cursor) : Except SyntaxError Expr :=
  match cursor.tokens with
  | .error e => .error e
  | .ok tokens => (Parser.parse tokens.toArray .start).1.mapError Parser.Stop.toSyntaxError

/-- The expression written in the bytes `start` to `stop` of `source` (`parse_expression`). -/
def parseRange (source : List Char) (start stop : Nat) : Except SyntaxError Expr :=
  parseAt (.ofRange source start stop)

/-- The expression written in the bytes `start` to `stop` of `source`, of which the first has the line and column of
`place` (`parse_expression_at`). -/
def parseRangeAt (source : List Char) (start stop : Nat) (place : Location) : Except SyntaxError Expr :=
  parseAt (.ofRangeAt source start stop place)

/-- The expression that `source` is. -/
def parse (source : List Char) : Except SyntaxError Expr := parseAt (.ofText source)

end PropertyExpr.Expr
