import PropertyExpr.Location
/-!
# Tokens of a code block: `lexer::token`
-/
namespace PropertyExpr

/-- What a token is (`TokenKind`). An integer is unsigned: the sign and the range of a literal are the parser's
business. -/
inductive Token.Kind where
  | integer (value : UInt64)
  | string (value : String)
  | ident (name : String)
  | leftBracket
  | rightBracket
  | leftParen
  | rightParen
  | dot
  | plus
  | minus
  | star
  | slash
  /-- The end of the block. -/
  | blockEnd
deriving DecidableEq, Repr, Inhabited

/-- How messages show a token (`TokenKind::fmt`). A string stands between quotes, with nothing escaped. -/
def Token.Kind.display : Token.Kind → String
  | .integer n => toString n.toNat
  | .string s => "\"" ++ s ++ "\""
  | .ident name => name
  | .leftBracket => "["
  | .rightBracket => "]"
  | .leftParen => "("
  | .rightParen => ")"
  | .dot => "."
  | .plus => "+"
  | .minus => "-"
  | .star => "*"
  | .slash => "/"
  | .blockEnd => "<end of block>"

structure Token where
  kind : Token.Kind
  location : Location
deriving DecidableEq, Repr, Inhabited

end PropertyExpr
