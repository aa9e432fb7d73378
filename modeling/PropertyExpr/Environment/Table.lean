import PropertyExpr.Environment.Basic
import PropertyExpr.OrderedMap
/-!
# Query tables: `environment::QueryTable`

A table has sources in the order of their first insertion, and a source has rows, counted from 1. In JSON, it
is an object of arrays of objects.
-/
namespace PropertyExpr

/-- A row: its fields and their values. -/
abbrev Row := OrderedMap Value

/-- Sources and their rows (`QueryTable`). -/
structure Table where
  sources : OrderedMap (List Row)
deriving Inhabited

namespace Table

/-- The table without sources (`QueryTable::new`). -/
def empty : Table := ⟨.empty⟩

/-- Adds a source or replaces its rows (`QueryTable::insert`). -/
def insert (t : Table) (name : String) (rows : List Row) : Table := ⟨t.sources.insert name rows⟩

/-- The table with a source that is added or has its rows replaced (`QueryTable::with_source`). -/
def withSource (t : Table) (name : String) (rows : List Row) : Table := t.insert name rows

/-- The names of the sources (`QueryTable::names`). -/
def names (t : Table) : List String := t.sources.keys

/-- The rows of a source (`QueryTable::rows`). -/
def rows? (t : Table) (name : String) : Option (List Row) := t.sources.get? name

/-- The row of a rank. -/
def row? (rows : List Row) (rank : Int64) : Option Row :=
  if 1 ≤ rank.toInt then rows[(rank.toInt - 1).toNat]? else none

/-- The value that a reference asks for, or why there is none (`QueryTable::lookup`). -/
def lookup (t : Table) (r : Reference) : Except LookupError Value :=
  match t.rows? r.name with
  | none => .error (.unknownSource r.name)
  | some rows =>
    match row? rows r.rank with
    | none => .error (.rankOutOfRange r.name r.rank rows.length)
    | some row =>
      match row.get? r.field with
      | none => .error (.missingField r.name r.rank r.field)
      | some value => .ok value

/-- The environment that answers from the table. -/
def environment (t : Table) : Environment := .ofFunction t.lookup

def equalRows : List Row → List Row → Bool
  | [], [] => true
  | a :: as, b :: bs => a.equal Value.equal b && equalRows as bs
  | _, _ => false

/-- Whether two tables have the same sources with equal rows, in whatever order sources and fields are. -/
def equal (a b : Table) : Bool := a.sources.equal equalRows b.sources

/-- The row that an object is; of equal keys the last counts, at the place of the first. -/
def rowOfJson? : Json → Option Row
  | .object fields => some (.ofList (fields.map fun (key, j) => (key, Value.ofJson j)))
  | _ => none

def rowsOfJson? : Json → Option (List Row)
  | .array items => items.mapM rowOfJson?
  | _ => none

def sourceOfJson? : String × Json → Option (String × List Row)
  | (name, j) => (rowsOfJson? j).map (name, ·)

/-- The table that a value is (`QueryTable::from_json`). -/
def ofJson? : Json → Option Table
  | .object fields => (fields.mapM sourceOfJson?).map fun sources => ⟨.ofList sources⟩
  | _ => none

end Table

end PropertyExpr
