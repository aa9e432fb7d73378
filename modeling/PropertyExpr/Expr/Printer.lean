import PropertyExpr.Expr.Basic
/-!
# Expressions as text: `Expr::fmt`

`Expr.print` writes an expression the way it is written in a template, with blanks around operators and with
parentheses only where precedence or associativity asks for them.
-/
namespace PropertyExpr.Expr

/-- A string literal: a backslash goes before each backslash and each quote. -/
def escape : List Char → List Char
  | [] => []
  | c :: cs => if c = '\\' ∨ c = '"' then '\\' :: c :: escape cs else c :: escape cs

/-- Whether `e`, as left operand of `op`, needs parentheses. -/
def leftNeedsParens (op : Operator) : Expr → Bool
  | binary inner _ _ => inner.precedence < op.precedence
  | _ => false

/-- Whether `e`, as right operand of `op`, needs parentheses: operators group to the left, so equal precedence
is enough. -/
def rightNeedsParens (op : Operator) : Expr → Bool
  | binary inner _ _ => inner.precedence ≤ op.precedence
  | _ => false

/-- `text` between parentheses if `parens` says so. -/
def parenthesize (parens : Bool) (text : List Char) : List Char :=
  if parens then '(' :: text ++ [')'] else text

/-- The characters of an expression (`Expr::fmt`). -/
def print : Expr → List Char
  | number n => (toString n.toInt).toList
  | string s => '"' :: escape s.toList ++ ['"']
  | ref r => r.display.toList
  | binary op left right =>
    parenthesize (left.leftNeedsParens op) left.print ++ ' ' :: op.symbol.toList ++
      ' ' :: parenthesize (right.rightNeedsParens op) right.print

/-- The expression as it is written in a template. -/
def source (e : Expr) : String := String.ofList e.print

end PropertyExpr.Expr
