import PropertyExpr.Identifier
import PropertyExpr.Text.Quoted
/-!
# References: `parser::ast::Reference`

`name[rank].field` asks for one field of one row of a source; rows are counted from 1. Every reference in a
parsed template is well formed; one that was built by hand need not be, and its first defect is what
evaluation reports.
-/
namespace PropertyExpr

structure Reference where
  name : String
  rank : Int64
  field : String
deriving DecidableEq, Repr, Inhabited

namespace Reference

/-- What keeps a reference from being well formed. -/
inductive Defect where
  | name (name : String)
  | rank (rank : Int64)
  | field (field : String)
deriving DecidableEq, Repr

def Defect.message : Defect → String
  | .name s => "reference name " ++ Text.quoted s ++ " is not an identifier"
  | .rank n => "reference rank " ++ toString n.toInt ++ " is not a positive integer"
  | .field s => "reference field " ++ Text.quoted s ++ " is not an identifier"

/-- The first defect, in the order name, rank, field (`Reference::validate`). -/
def defect? (r : Reference) : Option Defect :=
  if !isIdentifier r.name then some (.name r.name)
  else if r.rank < 1 then some (.rank r.rank)
  else if !isIdentifier r.field then some (.field r.field)
  else none

/-- Name and field are identifiers and the rank is positive. -/
def WellFormed (r : Reference) : Prop := isIdentifier r.name ∧ 1 ≤ r.rank ∧ isIdentifier r.field

instance (r : Reference) : Decidable r.WellFormed := inferInstanceAs (Decidable (_ ∧ _))

/-- How the reference is written in a template. -/
def display (r : Reference) : String :=
  r.name ++ "[" ++ toString r.rank.toInt ++ "]." ++ r.field

end Reference

end PropertyExpr
