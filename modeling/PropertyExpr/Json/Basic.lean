import PropertyExpr.Number.Int64
/-!
# JSON values

A number is an integer or a double. The fields of an object are kept as they were written; `Json.sorted`
brings them into the order of their keys, of equal keys keeping the last, which is how two objects are told
apart.
-/
namespace PropertyExpr

inductive Json where
  | null
  | bool (value : Bool)
  | int (value : Int)
  | float (value : Float)
  | string (value : String)
  | array (items : List Json)
  | object (fields : List (String × Json))
deriving Inhabited

namespace Json

/-- Puts a field before those of a list in key order, unless its key is among them. -/
def insertField (key : String) (value : Json) : List (String × Json) → List (String × Json)
  | [] => [(key, value)]
  | (k, v) :: fields =>
    if key < k then (key, value) :: (k, v) :: fields
    else if key = k then (k, v) :: fields
    else (k, v) :: insertField key value fields

mutual
/-- `j` with the fields of every object in the order of their keys, each key once. -/
def sorted : Json → Json
  | array items => array (sortedItems items)
  | object fields => object (sortedFields fields)
  | j => j
def sortedItems : List Json → List Json
  | [] => []
  | j :: items => j.sorted :: sortedItems items
def sortedFields : List (String × Json) → List (String × Json)
  | [] => []
  | (key, j) :: fields => insertField key j.sorted (sortedFields fields)
end

/-- The value of the first field with a key. -/
def field? (fields : List (String × Json)) (key : String) : Option Json := fields.lookup key

/-- The text that a string is. -/
def string? : Json → Option String
  | string s => some s
  | _ => none

/-- The signed 64-bit integer that an integral number is. -/
def int64? : Json → Option Int64
  | int n => Number.int64? n
  | _ => none

end Json

end PropertyExpr
