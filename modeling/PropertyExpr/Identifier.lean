/-!
# Identifiers: `lexer::is_identifier`

Names of sources and fields: a letter or an underscore, then letters, digits and underscores, all ASCII.
-/
namespace PropertyExpr

def isIdentifierStart (c : Char) : Bool := c.isAlpha || c = '_'

def isIdentifierPart (c : Char) : Bool := c.isAlphanum || c = '_'

/-- Whether a text is an identifier (`is_identifier`). -/
def isIdentifier (name : String) : Bool :=
  match name.toList with
  | [] => false
  | c :: cs => isIdentifierStart c && cs.all isIdentifierPart

end PropertyExpr
