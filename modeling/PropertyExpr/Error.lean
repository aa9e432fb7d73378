import PropertyExpr.SyntaxError
/-!
# Errors: `errors::CpeError`

A syntax error stays inside its code block and is only ever a warning. What can fail outward is a tree that
no template parses to, an environment file, a strict check, and reading or writing.
-/
namespace PropertyExpr

/-- What is wrong with a tree built by hand; `tree` is its JSON text. -/
inductive TreeError where
  /-- A reference that is not well formed, or that has an attribute of the wrong type. -/
  | invalid (tree reason : String)
  /-- Something that is no tree. -/
  | unrecognized (tree : String)
deriving DecidableEq, Repr, Inhabited

def TreeError.message : TreeError → String
  | invalid tree _ => "could not evaluate invalid AST: " ++ tree
  | unrecognized tree => "could not evaluate unrecognized AST: " ++ tree

/-- Whatever can go wrong (`CpeError`). -/
inductive Error where
  | syntactic (error : SyntaxError)
  | tree (error : TreeError)
  | environment (reason : String)
  /-- Some blocks of a template that had to be free of them were kept as text. -/
  | strict (count : Nat)
  | io (reason : String)
deriving DecidableEq, Repr

namespace Error

def message : Error → String
  | syntactic e => e.message
  | tree e => e.message
  | environment reason => "invalid environment: " ++ reason
  | strict count => toString count ++ " code block(s) kept as literal text (--strict)"
  | io reason => "I/O error: " ++ reason

/-- The code that identifies the kind of error; reading and writing has none. -/
def code? : Error → Option String
  | syntactic e => some e.code
  | tree (.invalid ..) => some "E0401"
  | tree (.unrecognized _) => some "E0402"
  | environment _ => some "E0501"
  | strict _ => some "E0601"
  | io _ => none

def hint? : Error → Option String
  | syntactic e => some e.hint
  | tree (.invalid _ reason) => some reason
  | _ => none

/-- The text that marks the bytes a syntax error is about. -/
def label? : Error → Option String
  | syntactic e => some e.label
  | _ => none

/-- Start and end of the bytes that a syntax error marks (`CpeError::span`). -/
def span? : Error → Option (Nat × Nat)
  | syntactic e => some e.span
  | _ => none

/-- Whether the error comes from parsing a code block (`CpeError::is_syntax_error`). -/
def isSyntactic (e : Error) : Bool := e.span?.isSome

end Error

end PropertyExpr
