import PropertyExpr.Environment.Format
import PropertyExpr.Error
/-!
# Commands of the command line: `Commands`

What a command is to do, and what it reads to do it. A path names standard input if it is a hyphen.
-/
namespace PropertyExpr.Cli

/-- Where a text is read from: a file, or standard input. -/
structure Source where
  path : String
deriving DecidableEq, Repr

namespace Source

/-- Whether a source is standard input (`is_stdin`). -/
def isStdin (source : Source) : Bool := source.path = "-" ∨ source.path = "/dev/stdin"

/-- How messages call a template that is read from a source (`TemplateInput::read`). -/
def name (source : Source) : String := if source.isStdin then "<stdin>" else source.path

/-- How messages call a source that cannot be read (`read_source`). -/
def called (source : Source) : String := if source.isStdin then "stdin" else source.path

end Source

/-- A template that is given on the command line or read. -/
inductive TemplateInput where
  | inline (template : String)
  | source (source : Source)
deriving DecidableEq, Repr

namespace TemplateInput

/-- How messages call a template. -/
def name : TemplateInput → String
  | inline _ => "<expr>"
  | source s => s.name

/-- Where a template is read from, if it is not given in place. -/
def source? : TemplateInput → Option Source
  | inline _ => none
  | source s => some s

end TemplateInput

/-- Where an environment is read from, and how (`EnvInput`). -/
structure EnvironmentInput where
  source : Source
  /-- The name of the format, if one is given. -/
  formatName : Option String
deriving DecidableEq, Repr

/-- The format in which an environment is read (`EnvInput::load`). Without a name, the extension of the file tells it.
-/
def EnvironmentInput.format (env : EnvironmentInput) : Except Error Environment.Format :=
  match env.formatName with
  | none => .ok (.ofPath env.source.path)
  | some name =>
    match Environment.Format.ofName? name with
    | some format => .ok format
    | none => .error (.environment ("unknown environment format '" ++ name ++ "'. Use: json, yaml"))

/-- What a run is to do (`Commands`). -/
inductive Command where
  /-- Shows the tree of a template. -/
  | parse (input : TemplateInput)
  | render (input : TemplateInput) (env : Option EnvironmentInput) (formatName : String)
  /-- Evaluates a tree in JSON form. -/
  | evaluate (tree : Source) (env : Option EnvironmentInput) (formatName : String)
  /-- Reports the blocks of a template that are kept as text; strictly, they are an error. -/
  | check (input : TemplateInput) (strict : Bool)
deriving DecidableEq, Repr

namespace Command

/-- Where the template or tree is read from. -/
def inputSource? : Command → Option Source
  | parse input | check input _ | render input _ _ => input.source?
  | evaluate tree _ _ => some tree

def environment? : Command → Option EnvironmentInput
  | render _ env _ | evaluate _ env _ => env
  | parse _ | check .. => none

/-- What a command reads, the template or tree before the environment. -/
def sources (command : Command) : List Source :=
  command.inputSource?.toList ++ (command.environment?.map (·.source)).toList

end Command

end PropertyExpr.Cli
