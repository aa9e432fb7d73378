import PropertyExpr.Expr.Reference
/-!
# Expressions: `parser::ast`

An expression is a tree of operators over integer literals, string literals and references. There is no
negation: the parser folds a minus sign into a literal and writes `0 - e` for other operands.
-/
namespace PropertyExpr

/-- The four operators (`BinaryOp`). -/
inductive Operator where
  | add | sub | mul | div
deriving DecidableEq, Repr, Inhabited

namespace Operator

/-- The operator as it is written, and its tag in the JSON form (`BinaryOp::symbol`). -/
def symbol : Operator → String
  | add => "+"
  | sub => "-"
  | mul => "*"
  | div => "/"

/-- The operator that is written so (`BinaryOp::from_symbol`). -/
def ofSymbol? : String → Option Operator
  | "+" => some add
  | "-" => some sub
  | "*" => some mul
  | "/" => some div
  | _ => none

/-- The higher, the tighter it binds (`BinaryOp::precedence`). -/
def precedence : Operator → Nat
  | add | sub => 1
  | mul | div => 2

end Operator

inductive Expr where
  | number (value : Int64)
  | string (value : String)
  | ref (reference : Reference)
  | binary (op : Operator) (left right : Expr)
deriving DecidableEq, Repr, Inhabited

namespace Expr

/-- The number of operators in a tree. -/
def operatorCount : Expr → Nat
  | number _ | string _ | ref _ => 0
  | binary _ left right => left.operatorCount + right.operatorCount + 1

/-- The references of a tree from left to right, each as often as it occurs. -/
def references : Expr → List Reference
  | number _ | string _ => []
  | ref r => [r]
  | binary _ left right => left.references ++ right.references

end Expr

end PropertyExpr
