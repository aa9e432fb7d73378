import PropertyExpr.Environment.Format
import PropertyExpr.Environment.JsonFile
import PropertyExpr.Environment.YamlFile
import PropertyExpr.Error
/-!
# Environment files: `environment::load_environment`

An environment file holds a query table, in JSON or in YAML.
-/
namespace PropertyExpr.Environment

namespace Format

/-- The name of a format in messages. -/
def display : Format → String
  | json => "JSON"
  | yaml => "YAML"

/-- The table of a file in a format. -/
def read? (content : String) : Format → Option Table
  | json => JsonFile.read? content
  | yaml => YamlFile.read? content

end Format

/-- The table of an environment file (`load_environment`). -/
def ofFile (content : String) (format : Format) : Except Error Table :=
  match format.read? content with
  | some table => .ok table
  | none => .error (.environment ("the file is no query table in " ++ format.display))

end PropertyExpr.Environment
