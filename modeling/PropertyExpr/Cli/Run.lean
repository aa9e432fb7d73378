import PropertyExpr.Cli.Report
import PropertyExpr.Environment.File
import PropertyExpr.Evaluation
import PropertyExpr.Json.Reader
import PropertyExpr.Template.Parse
/-!
# Running a command: `cmd_parse`, `cmd_render`, `cmd_eval_ast` and `cmd_check`

A run is a function of what can be read. The stages of a command come in a fixed order, and the first that fails
decides the status: reading the template or tree, then the environment, then evaluation, and the format of the
output last.
-/
namespace PropertyExpr.Cli

/-- What a run can read. -/
structure Inputs where
  stdin : ByteArray
  file? : String → Option ByteArray

namespace Inputs

variable (inputs : Inputs)

/-- The bytes of a source, if it can be read. -/
def bytes? (source : Source) : Option ByteArray :=
  if source.isStdin then some inputs.stdin else inputs.file? source.path

/-- The text of a source, which must be UTF-8 (`read_source`). Why a file cannot be read is left to the system to say.
-/
def text (source : Source) : Except Error String :=
  match inputs.bytes? source with
  | none => .error (.io ("failed to read " ++ source.called))
  | some bytes =>
    match String.fromUTF8? bytes with
    | none => .error (.io ("failed to read " ++ source.called ++ ": stream did not contain valid UTF-8"))
    | some text => .ok text

/-- The text of a template (`TemplateInput::read`). -/
def template : TemplateInput → Except Error String
  | .inline template => .ok template
  | .source source => inputs.text source

/-- The JSON value of a tree (`cmd_eval_ast`). -/
def tree (source : Source) : Except Error Json := do
  let text ← inputs.text source
  match Json.ofText? text with
  | none => .error (.io ("failed to parse " ++ source.path ++ " as JSON"))
  | some tree => return tree

/-- The table of an environment (`EnvInput::load`); without one, no source is known. -/
def table : Option EnvironmentInput → Except Error Table
  | none => .ok .empty
  | some env => do
    let format ← env.format
    Environment.ofFile (← inputs.text env.source) format

end Inputs

/-- What is logged of an environment that has been loaded (`EnvInput::load`). -/
def logLoaded (table : Table) : Option EnvironmentInput → List LogEntry
  | none => []
  | some env => [.loaded env.source.path table.names.length]

/-- Standard input is read once at most (`TemplateInput::uses_stdin`, `EnvInput::uses_stdin`); `what` is the template or
tree. -/
def singleStdin (what : String) (source? : Option Source) (env : Option EnvironmentInput) : Except Error Unit :=
  if source?.any Source.isStdin && env.any (·.source.isStdin) then
    .error (.io (what ++ " and environment cannot both be read from stdin"))
  else .ok ()

/-- A rendered value as a line in the format called `name` (`print_rendered`). -/
def format (name : String) (value : Rendered) : Except Error String :=
  if name = "text" then .ok (value.text ++ "\n")
  else if name = "json" then .ok (value.toJson.text ++ "\n")
  else .error (.io ("unknown output format '" ++ name ++ "'. Use: text, json"))

/-- The entries of a log that are shown (`init_logging`): warnings, and when verbose also what is below them. -/
def shown (verbose : Bool) (log : List LogEntry) : List Notice :=
  (log.filter fun entry => match entry.level with
    | .warn => true
    | .debug => verbose
    | .trace => false).map .log

/-- The report of an evaluation, behind what is logged `before` it. -/
def reportOutcome (verbose : Bool) (formatName : String) (before : List LogEntry) (outcome : Outcome) : Report :=
  let written := (outcome.result.mapError Error.tree).bind fun value =>
    (format formatName value).map fun output => (output, if formatName = "json" then value.jsonLog else [])
  let log := match written with
    | .ok (_, log) => log
    | .error _ => []
  .ofResult (shown verbose (before ++ outcome.log ++ log)) (written.map (·.1))

/-- Runs a command (`cmd_parse`, `cmd_render`, `cmd_eval_ast`, `cmd_check`). -/
def run (inputs : Inputs) (verbose : Bool) : Command → Report
  | .parse input =>
    match inputs.template input with
    | .error e => .ofResult [] (.error e)
    | .ok source =>
      let (template, warnings) := Template.parseWithWarnings source
      .ofResult (shown verbose (warnings.map .kept)) (.ok (String.ofList template.written.pretty ++ "\n"))
  | .render input env formatName =>
    let read : Except Error (String × Table) := do
      singleStdin "template" input.source? env
      return (← inputs.template input, ← inputs.table env)
    match read with
    | .error e => .ofResult [] (.error e)
    | .ok (source, table) => reportOutcome verbose formatName (logLoaded table env) (render table.environment source)
  | .evaluate source env formatName =>
    let read : Except Error (Json × Table) := do
      singleStdin "AST" (some source) env
      return (← inputs.tree source, ← inputs.table env)
    match read with
    | .error e => .ofResult [] (.error e)
    | .ok (tree, table) => reportOutcome verbose formatName (logLoaded table env) (evaluateJson table.environment tree)
  | .check input strict =>
    match inputs.template input with
    | .error e => .ofResult [] (.error e)
    | .ok source =>
      let warnings := (Template.parseWithWarnings source).2
      let notices := shown verbose (warnings.map .kept) ++ warnings.map (.warning input.name)
      if strict && !warnings.isEmpty then .ofResult notices (.error (.strict warnings.length))
      else .ofResult (notices ++ [.kept input.name warnings.length]) (.ok "")

/-- Runs what a command line asks for (`main`). -/
def runArguments (inputs : Inputs) (words : List String) : Report :=
  match Invocation.ofArguments words with
  | .error ending => .ofEnding ending
  | .ok invocation => run inputs invocation.verbose invocation.command

end PropertyExpr.Cli
