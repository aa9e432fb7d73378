import PropertyExpr.Json.Basic
/-!
# Host values: `evaluator::value::Value`

What a field of a row may hold. Integers are signed 64-bit ones; every other number is a double.
-/
namespace PropertyExpr

inductive Value where
  | null
  | bool (value : Bool)
  | int (value : Int64)
  | float (value : Float)
  | string (value : String)
  | array (items : List Value)
  | object (fields : List (String × Value))
deriving Inhabited

namespace Value

/-- The name of the type of a value (`Value::type_name`). -/
def typeName : Value → String
  | null => "null"
  | bool _ => "bool"
  | int _ => "int"
  | float _ => "float"
  | string _ => "string"
  | array _ => "array"
  | object _ => "object"

/-- An integer as a host value. -/
def ofInteger (n : Int) : Value :=
  match Number.int64? n with
  | some i => int i
  | none => float (Float.ofInt n)

mutual
/-- The host value of a JSON value whose fields are in order. -/
def ofSorted : Json → Value
  | .null => null
  | .bool b => bool b
  | .int n => ofInteger n
  | .float x => float x
  | .string s => string s
  | .array items => array (ofItems items)
  | .object fields => object (ofFields fields)
def ofItems : List Json → List Value
  | [] => []
  | j :: items => ofSorted j :: ofItems items
def ofFields : List (String × Json) → List (String × Value)
  | [] => []
  | (key, j) :: fields => (key, ofSorted j) :: ofFields fields
end

/-- The host value of a JSON value (`Value::from_serde_json`). Objects inside it have their fields in the order of
their keys. -/
def ofJson (j : Json) : Value := ofSorted j.sorted

mutual
/-- Whether two values are equal: numbers as numbers, objects without regard to the order of their fields. -/
def equal : Value → Value → Bool
  | null, null => true
  | bool a, bool b => a == b
  | int a, int b => a == b
  | float a, float b => a == b
  | string a, string b => a == b
  | array a, array b => equalItems a b
  | object a, object b => a.length == b.length && containedFields a b
  | _, _ => false
def equalItems : List Value → List Value → Bool
  | [], [] => true
  | a :: as, b :: bs => a.equal b && equalItems as bs
  | _, _ => false
/-- Whether each field of the first list is in the second. -/
def containedFields : List (String × Value) → List (String × Value) → Bool
  | [], _ => true
  | (key, a) :: as, bs =>
    (match bs.lookup key with
      | some b => a.equal b
      | none => false) && containedFields as bs
end

end Value

end PropertyExpr
