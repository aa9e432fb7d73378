import PropertyExpr.Number.Text
import PropertyExpr.Template.Parse
/-!
# What is logged

Nothing that is logged changes a result: a block kept as text, a reference that resolved to nothing, a number that
JSON cannot write, and an environment that has been loaded.
-/
namespace PropertyExpr

/-- Why a lookup found nothing. -/
inductive LookupError where
  | unknownSource (name : String)
  | rankOutOfRange (name : String) (rank : Int64) (rows : Nat)
  | missingField (name : String) (rank : Int64) (field : String)
  /-- The words of a host function. -/
  | custom (text : String)
deriving DecidableEq, Repr

def LookupError.message : LookupError → String
  | unknownSource name => "unknown data source '" ++ name ++ "'"
  | rankOutOfRange name rank rows =>
    "rank " ++ toString rank.toInt ++ " is out of range for '" ++ name ++ "' (" ++ toString rows ++ " rows)"
  | missingField name rank field =>
    "'" ++ name ++ "[" ++ toString rank.toInt ++ "]' has no field '" ++ field ++ "'"
  | custom text => text

/-- Why a reference resolved to nothing. -/
inductive Miss where
  | badRank
  | failed (error : LookupError)
  /-- The value found is neither a number nor a text. -/
  | unrenderable (typeName : String)
deriving DecidableEq, Repr

def Miss.message : Miss → String
  | badRank => "rank is not positive"
  | failed error => error.message
  | unrenderable typeName => typeName ++ " value does not render"

inductive LogLevel where
  | trace | debug | warn
deriving DecidableEq, Repr

inductive LogEntry where
  /-- A block is kept as text (`Composer::push_fallback`). -/
  | kept (warning : Warning)
  /-- A reference resolved to nothing (`resolve_query`). -/
  | missed (reference : Reference) (miss : Miss)
  /-- A number that JSON cannot write (`Rendered::to_json`). -/
  | nonFinite (x : Float)
  /-- An environment has been loaded (`EnvInput::load`). -/
  | loaded (path : String) (sources : Nat)

namespace LogEntry

def level : LogEntry → LogLevel
  | kept _ | loaded .. => .debug
  | missed .. => .trace
  | nonFinite _ => .warn

def message : LogEntry → String
  | kept warning => "keeping " ++ Text.quoted warning.block ++ " as literal text: " ++ warning.cause.message
  | missed reference miss => reference.display ++ ": " ++ miss.message
  | nonFinite x => "non-finite number (" ++ String.ofList (Number.text x) ++ ") written as null in JSON"
  | loaded path sources => "loaded environment from " ++ path ++ " (" ++ toString sources ++ " sources)"

end LogEntry

end PropertyExpr
