import PropertyExpr.Cli.Arguments
import PropertyExpr.Log
/-!
# Reports of a run: `main`

A run ends with a status and a text for standard output. What it says beside that are notices, which go to
standard error.
-/
namespace PropertyExpr.Cli

/-- How a run ends. -/
inductive Status where
  | success
  /-- Evaluation, an environment or a strict check failed. -/
  | failure
  /-- The command line is not understood. -/
  | misuse
  /-- Something could not be read or written. -/
  | io
deriving DecidableEq, Repr

def Status.exitCode : Status → Nat
  | success => 0
  | failure => 1
  | misuse => 2
  | io => 3

/-- How a run ends that fails with an error (`main`). -/
def Status.ofError : Error → Status
  | .io _ => io
  | _ => failure

inductive Notice where
  | log (entry : LogEntry)
  /-- A block kept as text, in the template that is called `name`. -/
  | warning (name : String) (warning : Warning)
  /-- How many blocks of a template are kept as text. -/
  | kept (name : String) (count : Nat)
  | failed (error : Error)
  | usage
deriving Inhabited

namespace Notice

/-- `text` with each of its lines indented. -/
def indent (text : String) : String :=
  "  " ++ String.ofList (text.toList.flatMap fun c => if c = '\n' then ['\n', ' ', ' '] else [c])

/-- The lines that describe an error: its code, if it has one, and then, indented, what else is known of it. -/
def describe (e : Error) : List String :=
  e.code?.toList ++ indent e.message :: (e.label?.map indent).toList ++
    (e.hint?.map fun hint => indent ("help: " ++ hint)).toList

def levelName : LogLevel → String
  | .trace => "TRACE"
  | .debug => "DEBUG"
  | .warn => "WARN"

/-- A notice in lines. -/
def lines : Notice → List String
  | log entry => ["[" ++ levelName entry.level ++ "] " ++ entry.message]
  | warning name w =>
    ("warning: " ++ name ++ ":" ++ toString w.location.line ++ ":" ++ toString w.location.column ++ ": " ++
      w.message) :: describe (.syntactic w.cause)
  | kept name count => [if count = 0 then name ++ ": OK" else name ++ ": " ++ toString count ++ " warning(s)"]
  | failed e => describe e
  | usage => ["usage: cpe [-v] parse|render|eval-ast|check ARGUMENTS", "try 'cpe --help'"]

end Notice

structure Report where
  status : Status
  output : String
  notices : List Notice

namespace Report

/-- The report of a run that has a text to show or fails. -/
def ofResult (notices : List Notice) : Except Error String → Report
  | .ok output => ⟨.success, output, notices⟩
  | .error e => ⟨.ofError e, "", notices ++ [.failed e]⟩

/-- The text for standard error. -/
def diagnostics (r : Report) : String := String.join (r.notices.flatMap fun n => n.lines.map (· ++ "\n"))

end Report

def helpText : String := "\n".intercalate
  ["Parses and renders templates against query data",
    "",
    "Usage: cpe [-v] COMMAND",
    "",
    "Commands:",
    "  parse INPUT                       print the tree of a template as JSON",
    "  render INPUT [ENV] [-f FORMAT]    evaluate a template",
    "  eval-ast FILE [ENV] [-f FORMAT]   evaluate a tree given as JSON",
    "  check INPUT [--strict]            report blocks that are kept as text",
    "  help [COMMAND]                    print this text",
    "",
    "INPUT is FILE or -e TEMPLATE, ENV is --env FILE [--env-format json|yaml], FORMAT is text or json.",
    "The file - is standard input.",
    ""]

def versionText : String := "cpe 0.1.0\n"

/-- The report of a run without a command. -/
def Report.ofEnding : Ending → Report
  | .help => ⟨.success, helpText, []⟩
  | .version => ⟨.success, versionText, []⟩
  | .misuse => ⟨.misuse, "", [.usage]⟩

end PropertyExpr.Cli
