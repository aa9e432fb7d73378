import PropertyExpr.Json.Writer
import PropertyExpr.Log
import PropertyExpr.Number.Coercion
import PropertyExpr.Value.Basic
/-!
# Rendered values: `evaluator::value::Rendered`

Evaluation gives a number or a text. Of host values, only numbers and texts render.
-/
namespace PropertyExpr

inductive Rendered where
  | number (value : Float)
  | string (value : String)
deriving Inhabited

/-- What a host value renders as, if it does (`Value::as_rendered`). -/
def Value.render? : Value → Option Rendered
  | .int n => some (.number (Float.ofInt n.toInt))
  | .float x => some (.number x)
  | .string s => some (.string s)
  | .null | .bool _ | .array _ | .object _ => none

namespace Rendered

/-- What everything renders as that is not there (`Rendered::empty`). -/
def empty : Rendered := string ""

/-- The value as an operand (`Rendered::to_number`). -/
def toNumber : Rendered → Float
  | number x => x
  | string s => Number.ofText s

/-- The value as text (`Rendered::fmt`). -/
def text : Rendered → String
  | number x => String.ofList (Number.text x)
  | string s => s

/-- Every integer whose magnitude is up to this bound, `2 ^ 53`, is a double. -/
def safeBound : Nat := Nat.pow 2 53

/-- The integer that `x` is, if it is one below the bound. -/
def safeInteger? (x : Float) : Option Int :=
  match x.toModel.unpack with
  | .zero _ => some 0
  | .finite sign mantissa exponent _ =>
    let m : Magnitude := ⟨mantissa, exponent⟩
    if m.isIntegral && m.floor < safeBound then
      some (match sign with
        | .positive => m.floor
        | .negative => -m.floor)
    else none
  | _ => none

/-- Whether `x` is a number and not infinite. -/
def isFinite (x : Float) : Bool := !(x.isNaN || x.isInf)

/-- The value as JSON (`Rendered::to_json`). A number that is not finite becomes null. -/
def toJson : Rendered → Json
  | string s => .string s
  | number x =>
    match safeInteger? x with
    | some n => .int n
    | none => if isFinite x then .float x else .null

/-- What is logged when the value is turned into JSON. -/
def jsonLog : Rendered → List LogEntry
  | string _ => []
  | number x => if isFinite x then [] else [.nonFinite x]

end Rendered

end PropertyExpr
