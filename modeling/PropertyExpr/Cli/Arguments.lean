import PropertyExpr.Cli.Command
/-!
# Reading the command line: `Cli::parse`

Words are read from left to right. A word that starts with a hyphen, other than the hyphen itself, is an option
(`--name`, `--name=value`, `--name value`) or a row of short options (`-v`, `-fjson`, `-f=json`, `-f json`); a
value in a word of its own must not look like an option. Behind `--`, all words are plain. Each option counts
once, and asking for help or for the version ends reading at once.
-/
namespace PropertyExpr.Cli

inductive Opt where
  | verbose | help | version | strict | expr | env | envFormat | format
deriving DecidableEq, Repr

namespace Opt

def takesValue : Opt → Bool
  | expr | env | envFormat | format => true
  | verbose | help | version | strict => false

def ofLong? : String → Option Opt
  | "verbose" => some verbose
  | "help" => some help
  | "version" => some version
  | "strict" => some strict
  | "expr" => some expr
  | "env" => some env
  | "env-format" => some envFormat
  | "format" => some format
  | _ => none

def ofShort? : Char → Option Opt
  | 'v' => some verbose
  | 'h' => some help
  | 'V' => some version
  | 'e' => some expr
  | 'f' => some format
  | _ => none

end Opt

/-- The names of commands. -/
inductive Verb where
  | parse | render | evaluate | check
deriving DecidableEq, Repr

namespace Verb

def ofName? : String → Option Verb
  | "parse" => some parse
  | "render" => some render
  | "eval-ast" => some evaluate
  | "check" => some check
  | _ => none

/-- Whether a command has an option. -/
def accepts : Verb → Opt → Bool
  | _, .verbose | _, .help => true
  | _, .version => false
  | verb, .strict => verb = check
  | verb, .expr => verb ≠ evaluate
  | verb, .env | verb, .envFormat | verb, .format => verb = render ∨ verb = evaluate

end Verb

/-- The options that may stand before the name of a command. -/
def acceptsGlobally : Opt → Bool
  | .verbose | .help | .version => true
  | _ => false

/-- Why a command line asks for no command to be run. -/
inductive Ending where
  | help
  | version
  /-- It is not understood. -/
  | misuse
deriving DecidableEq, Repr

/-- What has been read so far. -/
structure Settings where
  flags : List Opt
  values : List (Opt × String)
  file : Option String
deriving DecidableEq, Repr

namespace Settings

def none : Settings := ⟨[], [], .none⟩

def addFlag (s : Settings) : Opt → Except Ending Settings
  | .help => .error .help
  | .version => .error .version
  | opt => if opt ∈ s.flags then .error .misuse else .ok { s with flags := opt :: s.flags }

/-- Only the path of an environment must not be empty. -/
def addValue (s : Settings) (opt : Opt) (value : String) : Except Ending Settings :=
  if (s.values.lookup opt).isSome ∨ (opt = .env ∧ value = "") then .error .misuse
  else .ok { s with values := (opt, value) :: s.values }

def addFile (s : Settings) (path : String) : Except Ending Settings :=
  if s.file.isSome ∨ path = "" then .error .misuse else .ok { s with file := some path }

/-- Takes a row of short options; an option that takes a value may have it in the rest of the row, or else
waits for it. -/
def addShort (accepts : Opt → Bool) (s : Settings) : List Char → Except Ending (Settings × Option Opt)
  | [] => .ok (s, .none)
  | c :: cs =>
    match (Opt.ofShort? c).filter accepts with
    | .none => .error .misuse
    | some opt =>
      if opt.takesValue then
        match cs with
        | [] => .ok (s, some opt)
        | '=' :: value => (s.addValue opt (String.ofList value)).map (·, .none)
        | value => (s.addValue opt (String.ofList value)).map (·, .none)
      else
        match s.addFlag opt with
        | .error e => .error e
        | .ok s => addShort accepts s cs

/-- Takes a long option, which waits for a value if it needs one that is not in the word. -/
def addLong (accepts : Opt → Bool) (s : Settings) (word : List Char) :
    Except Ending (Settings × Option Opt) :=
  let name := word.takeWhile (· ≠ '=')
  match (Opt.ofLong? (String.ofList name)).filter accepts, word.dropWhile (· ≠ '=') with
  | .none, _ => .error .misuse
  | some opt, [] =>
    if opt.takesValue then .ok (s, some opt) else (s.addFlag opt).map (·, .none)
  | some opt, _ :: value =>
    if opt.takesValue then (s.addValue opt (String.ofList value)).map (·, .none) else .error .misuse

/-- Takes the word of an option, without its first hyphen. -/
def addOption (accepts : Opt → Bool) (s : Settings) :
    List Char → Except Ending (Settings × Option Opt)
  | '-' :: name => s.addLong accepts name
  | row => s.addShort accepts row

/-- The characters of an option behind its first hyphen, if a word is one. -/
def option? (word : String) : Option (List Char) :=
  match word.toList with
  | '-' :: c :: cs => some (c :: cs)
  | _ => .none

/-- Takes the words behind the name of a command. -/
def addWords (accepts : Opt → Bool) (s : Settings) : List String → Except Ending Settings
  | [] => .ok s
  | "--" :: words => words.foldlM addFile s
  | word :: words =>
    match option? word with
    | .none =>
      match s.addFile word with
      | .error e => .error e
      | .ok s => addWords accepts s words
    | some row =>
      match s.addOption accepts row, words with
      | .error e, _ => .error e
      | .ok (s, .none), words => addWords accepts s words
      | .ok (_, some _), [] => .error .misuse
      | .ok (s, some opt), value :: words =>
        if (option? value).isSome then .error .misuse
        else match s.addValue opt value with
          | .error e => .error e
          | .ok s => addWords accepts s words

/-- The template: either given in place or read from a file. -/
def template (s : Settings) : Except Ending TemplateInput :=
  match s.values.lookup .expr, s.file with
  | some text, .none => .ok (.inline text)
  | .none, some path => .ok (.source ⟨path⟩)
  | _, _ => .error .misuse

def environment (s : Settings) : Option EnvironmentInput :=
  (s.values.lookup .env).map fun path => ⟨⟨path⟩, s.values.lookup .envFormat⟩

def formatName (s : Settings) : String := (s.values.lookup .format).getD "text"

def command (s : Settings) : Verb → Except Ending Command
  | .parse => s.template.map .parse
  | .render => s.template.map (.render · s.environment s.formatName)
  | .evaluate =>
    match s.file with
    | some path => .ok (.evaluate ⟨path⟩ s.environment s.formatName)
    | .none => .error .misuse
  | .check => s.template.map (.check · (.strict ∈ s.flags))

end Settings

/-- A command, and whether it reports what it does. -/
structure Invocation where
  verbose : Bool
  command : Command
deriving DecidableEq, Repr

namespace Invocation

/-- What a command line is that asks for help by name: the name of one command may follow. -/
def ofHelp : List String → Ending
  | [] | ["help"] => .help
  | [name] => if (Verb.ofName? name).isSome then .help else .misuse
  | _ => .misuse

/-- What the words of a command line ask for, `s` having been read before them. -/
def ofWords (s : Settings) : List String → Except Ending Invocation
  | [] => .error .misuse
  | "help" :: words => .error (ofHelp words)
  | word :: words =>
    match Settings.option? word with
    | some row =>
      if row = ['-'] then .error .misuse
      else match s.addOption acceptsGlobally row with
        | .error e => .error e
        | .ok (s, _) => ofWords s words
    | none =>
      match Verb.ofName? word with
      | none => .error .misuse
      | some verb =>
        match Settings.none.addWords verb.accepts words with
        | .error e => .error e
        | .ok inner =>
          (inner.command verb).map (⟨.verbose ∈ s.flags ++ inner.flags, ·⟩)

/-- What a command line asks for. -/
def ofArguments (words : List String) : Except Ending Invocation := ofWords .none words

end Invocation

end PropertyExpr.Cli
