import PropertyExpr.Environment.Table
import PropertyExpr.Json.Reader
/-!
# Environment files in JSON: `serde_json::from_str`

A file (`EnvironmentFile`) is an object whose field `queries` is the table, or an array that holds nothing or the
table. Other fields are passed over: they only have to be well written. A file without `queries` has the empty
table, and one that has it twice is refused.
-/
namespace PropertyExpr.Environment.JsonFile

open Json

/-- The table of a document inside a file, where one array or object is open already. -/
def table? (d : Document) : Option Table := (d.toJson? (Json.maxDepth - 1)).bind Table.ofJson?

/-- The table of the fields of a file, `found` being that of those before. -/
def ofFields? (found : Option Table) : List (List StringUnit × Document) → Option (Option Table)
  | [] => some found
  | (units, d) :: fields =>
    match decodeString? units with
    | none => none
    | some key =>
      if key = "queries" then
        match found, table? d with
        | none, some t => ofFields? (some t) fields
        | _, _ => none
      else ofFields? found fields

def ofDocument? : Document → Option Table
  | .object fields => (ofFields? none fields).map (·.getD .empty)
  | .array [] => some .empty
  | .array [d] => table? d
  | _ => none

/-- The table of a file with the given content. -/
def read? (content : String) : Option Table := (Document.ofText? content.toList).bind ofDocument?

end PropertyExpr.Environment.JsonFile
