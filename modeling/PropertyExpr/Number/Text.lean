import PropertyExpr.Decimal.Layout
/-!
# Numbers in rendered text: `evaluator::value::format_number`
-/
namespace PropertyExpr.Number

def nan : Float := 0.0 / 0.0

def infinity : Float := 1.0 / 0.0

/-- A number as rendered text shows it (`format_number`): integers without a fraction, and both zeros as `0`. -/
def text (x : Float) : List Char :=
  match x.toModel.unpack with
  | .notANumber => "NaN".toList
  | .infinity .positive => "Infinity".toList
  | .infinity .negative => "-Infinity".toList
  | .zero _ => ['0']
  | .finite .positive mantissa exponent _ => Layout.text.write ⟨mantissa, exponent⟩
  | .finite .negative mantissa exponent _ => '-' :: Layout.text.write ⟨mantissa, exponent⟩

end PropertyExpr.Number
