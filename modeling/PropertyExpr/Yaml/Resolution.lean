import PropertyExpr.Decimal.Reading
import PropertyExpr.Json.Basic
import PropertyExpr.Yaml.Tag
/-!
# What a scalar stands for

A plain scalar without a tag is null, a boolean, a number or a text, by how it is written; a tag of the YAML
core settles it. Integers may have a sign and a radix; one that needs more than 64 bits but no more than 128
is refused, and a longer one is a double. A run of digits with a leading zero is a text.
-/
namespace PropertyExpr.Yaml

def isNull (s : List Char) : Bool := ["null", "Null", "NULL", "~"].any (·.toList = s)

def bool? (s : List Char) : Option Bool :=
  if ["true", "True", "TRUE"].any (·.toList = s) then some true
  else if ["false", "False", "FALSE"].any (·.toList = s) then some false
  else none

/-- Whether `s` is a run of digits with a leading zero, perhaps behind a sign. -/
def isPaddedInteger (s : List Char) : Bool :=
  match (readSign s).2 with
  | '0' :: d :: cs => (d :: cs).all Char.isDigit
  | _ => false

/-- The value of digits in a radix, of which there must be one. -/
def radixValue? (radix : Nat) (digits : List Char) : Option Nat :=
  if digits.isEmpty then none
  else digits.foldlM (fun n c =>
    let value :=
      if c.isDigit then c.toNat - '0'.toNat
      else if c.isLower then c.toNat - 'a'.toNat + 10
      else if c.isUpper then c.toNat - 'A'.toNat + 10
      else radix
    if value < radix then some (n * radix + value) else none) 0

/-- The value of an unsigned integer, its radix told by a prefix. -/
def natural? : List Char → Option Nat
  | '0' :: 'x' :: digits => radixValue? 16 digits
  | '0' :: 'o' :: digits => radixValue? 8 digits
  | '0' :: 'b' :: digits => radixValue? 2 digits
  | digits => radixValue? 10 digits

/-- The integer that a text is, whatever its size. -/
def integer? (s : List Char) : Option Int :=
  if isPaddedInteger s then none
  else match s with
    | '-' :: digits => (natural? digits).map fun n => -(n : Int)
    | '+' :: digits => (natural? digits).map Int.ofNat
    | digits => (natural? digits).map Int.ofNat

/-- The double that a text is: a decimal, an infinity or no number. -/
def double? (s : List Char) : Option Float :=
  let unsigned := match s with
    | '+' :: cs => cs
    | cs => cs
  if [".inf", ".Inf", ".INF"].any (·.toList = unsigned) then some (1.0 / 0.0)
  else if ["-.inf", "-.Inf", "-.INF"].any (·.toList = s) then some (-1.0 / 0.0)
  else if [".nan", ".NaN", ".NAN"].any (·.toList = s) then some (0.0 / 0.0)
  else (readDouble? s).filter fun x => !x.isInf

/-- A double as JSON, which has no infinities. -/
def ofDouble (x : Float) : Json := if x.isNaN || x.isInf then .null else .float x

/-- Whether an integer fits `width` bits, with a sign or without one. -/
def fits (width : Nat) (n : Int) : Bool :=
  -(Nat.pow 2 (width - 1) : Int) ≤ n && n < (Nat.pow 2 width : Int)

/-- What an integer becomes: itself if it fits 64 bits; what fits no more than 128 bits is refused. `none` says
that it is no integer, being longer. -/
def ofInteger? (n : Int) : Option (Option Json) :=
  if fits 64 n then some (some (.int n))
  else if fits 128 n then some none
  else none

/-- The value of a plain scalar without a tag. -/
def plainValue? (s : String) : Option Json :=
  let cs := s.toList
  if cs.isEmpty || isNull cs then some .null
  else match bool? cs with
    | some b => some (.bool b)
    | none =>
      match (integer? cs).bind ofInteger? with
      | some r => r
      | none =>
        match (if isPaddedInteger cs then none else double? cs) with
        | some x => some (ofDouble x)
        | none => some (.string s)

/-- The value of a scalar with a tag. There are no types but those of the core. A tag that starts with a mark
and names none leaves the scalar what it is; all others leave it a text. -/
def taggedValue? (tag : Tag) (s : String) (plain : Bool) : Option Json :=
  let cs := s.toList
  if tag.isOwn then none
  else if tag = .core "bool" then (bool? cs).map .bool
  else if tag = .core "int" then ((integer? cs).bind ofInteger?).join
  else if tag = .core "float" then (double? cs).map ofDouble
  else if tag = .core "null" then if isNull cs then some .null else none
  else if tag.isMarked && plain then plainValue? s
  else some (.string s)

/-- The value of a scalar, `plain` saying how it is written. -/
def scalarValue? (tag : Option Tag) (s : String) (plain : Bool) : Option Json :=
  match tag with
  | some tag => taggedValue? tag s plain
  | none => if plain then plainValue? s else some (.string s)

end PropertyExpr.Yaml
