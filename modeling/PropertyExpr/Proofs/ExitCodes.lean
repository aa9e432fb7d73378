import Mathlib.Data.List.Basic
import PropertyExpr.Cli.Run
import PropertyExpr.Proofs.Composition
import PropertyExpr.Proofs.EnvironmentFiles
import PropertyExpr.Proofs.Stopping
/-!
# How commands end

`ends_runArguments` — a command goes through its stages in a fixed order, and the first that fails decides the exit
code. A failure to read or to write exits with 3, one of an environment or an evaluation with 1. `check` exits with 1 if
it is strict and a block is no expression. Whatever fails, nothing has gone to standard output.

What it is for a stage to fail is said of the inputs alone (`Stage.Fails`), without running what comes before it; an
environment is malformed if it is no file of its format (`Environment.Format.Holds`). Each stage is one step of the run,
so a command is followed step by step (`ExitsWith.bind`). That a template is never refused by the evaluator is what the
parser grants it: all references of a template are well formed.
-/
namespace PropertyExpr.Cli

/-! ## Texts -/

namespace Inputs

variable {inputs : Inputs}

/-- The source can be read, and its bytes are those of `text`. -/
def Holds (inputs : Inputs) (source : Source) (text : String) : Prop := inputs.bytes? source = some text.toUTF8

theorem text_eq_ok_iff {source : Source} {text : String} :
    inputs.text source = .ok text ↔ inputs.Holds source text := by
  rw [Inputs.text, Holds]
  cases inputs.bytes? source with
  | none => simp
  | some bytes =>
    simp only [Option.some.injEq]
    by_cases hvalid : bytes.IsValidUTF8
    · simp only [String.fromUTF8?, dif_pos hvalid, Except.ok.injEq]
      constructor
      · rintro rfl
        rfl
      · rintro rfl
        rfl
    · simp only [String.fromUTF8?, dif_neg hvalid, reduceCtorEq, false_iff]
      rintro rfl
      exact hvalid text.isValidUTF8

/-- An error in reading says what is not read. -/
theorem text_eq_error {source : Source} {e : Error} (h : inputs.text source = .error e) :
    (∀ text, ¬ inputs.Holds source text) ∧ ∃ reason, e = .io ("failed to read " ++ source.called ++ reason) := by
  constructor
  · intro text hholds
    cases h.symm.trans (text_eq_ok_iff.2 hholds)
  · rw [Inputs.text] at h
    cases hbytes : inputs.bytes? source with
    | none =>
      rw [hbytes] at h
      cases h
      exact ⟨"", by rw [String.append_empty]⟩
    | some bytes =>
      rw [hbytes] at h
      cases hutf8 : String.fromUTF8? bytes with
      | none =>
        simp only [hutf8] at h
        cases h
        exact ⟨": stream did not contain valid UTF-8", rfl⟩
      | some text =>
        simp only [hutf8] at h
        cases h

theorem exists_text_of_tree {source : Source} {tree : Json} (h : inputs.tree source = .ok tree) :
    ∃ text, inputs.Holds source text ∧ Json.ofText? text = some tree := by
  rw [Inputs.tree] at h
  cases htext : inputs.text source with
  | error e =>
    rw [htext] at h
    cases h
  | ok text =>
    refine ⟨text, text_eq_ok_iff.1 htext, ?_⟩
    rw [htext] at h
    cases hjson : Json.ofText? text with
    | none =>
      simp only [bind, Except.bind, hjson] at h
      cases h
    | some tree' =>
      simp only [bind, Except.bind, hjson] at h
      cases h
      rfl

/-- `text` is the template: it is given in place or held by the source. -/
def HoldsTemplate (inputs : Inputs) : TemplateInput → (text : String) → Prop
  | .inline template, text => text = template
  | .source source, text => inputs.Holds source text

theorem template_eq_ok_iff {input : TemplateInput} {text : String} :
    inputs.template input = .ok text ↔ inputs.HoldsTemplate input text := by
  cases input with
  | inline template => exact ⟨fun h => (Except.ok.inj h).symm, fun h => congrArg Except.ok (Eq.symm h)⟩
  | source source => exact text_eq_ok_iff

theorem Holds.unique {source : Source} {text text' : String} (h : inputs.Holds source text)
    (h' : inputs.Holds source text') : text = text' :=
  Except.ok.inj ((text_eq_ok_iff.2 h).symm.trans (text_eq_ok_iff.2 h'))

theorem HoldsTemplate.unique {input : TemplateInput} {text text' : String} (h : inputs.HoldsTemplate input text)
    (h' : inputs.HoldsTemplate input text') : text = text' :=
  Except.ok.inj ((template_eq_ok_iff.2 h).symm.trans (template_eq_ok_iff.2 h'))

end Inputs

/-! ## Stages -/

namespace Command

/-- The name of the format that the result is written in. -/
def outputFormat? : Command → Option String
  | .render _ _ name | .evaluate _ _ name => some name
  | .parse _ | .check .. => none

/-- What a command evaluates: the tree of a template, or what a tree in JSON form is read as. -/
inductive Evaluates (inputs : Inputs) : Command → Except TreeError Template → Prop where
  | template {input : TemplateInput} {env : Option EnvironmentInput} {formatName text : String}
      (read : inputs.HoldsTemplate input text) :
      Evaluates inputs (.render input env formatName) (.ok (Template.parse text))
  | tree {source : Source} {env : Option EnvironmentInput} {formatName text : String} {tree : Json}
      (read : inputs.Holds source text) (json : Json.ofText? text = some tree) :
      Evaluates inputs (.evaluate source env formatName) (Template.ofJson tree)

variable {inputs : Inputs} {command : Command} {decoded decoded' : Except TreeError Template}

theorem Evaluates.unique (h : command.Evaluates inputs decoded) (h' : command.Evaluates inputs decoded') :
    decoded = decoded' := by
  cases h with
  | template read =>
    cases h' with
    | template read' => rw [read.unique read']
  | tree read json =>
    cases h' with
    | tree read' json' =>
      cases read.unique read'
      cases json.symm.trans json'
      rfl

end Command

/-- What may go wrong with a command. -/
inductive Stage where
  /-- The input and the environment are both to be read from standard input. -/
  | sharedStdin
  /-- The template or tree cannot be read. -/
  | input
  /-- The text of the tree is no JSON. -/
  | notJson
  /-- The format of the environment has no known name. -/
  | formatName
  /-- The environment cannot be read. -/
  | environment
  /-- The text of the environment is no query table. -/
  | table
  /-- The tree is none, or has a reference that is not well formed. -/
  | evaluation
  /-- The format of the output has no known name. -/
  | outputFormat
  /-- Blocks are kept as text where none may be. -/
  | keptBlocks
deriving DecidableEq, Repr

namespace Stage

def exitCode : Stage → Nat
  | sharedStdin | input | notJson | environment | outputFormat => 3
  | formatName | table | evaluation | keptBlocks => 1

/-- When a stage of a command fails. -/
def Fails (inputs : Inputs) (command : Command) : Stage → Prop
  | sharedStdin => ∃ source env, command.inputSource? = some source ∧ command.environment? = some env ∧
    source.isStdin ∧ env.source.isStdin
  | input => ∃ source, command.inputSource? = some source ∧ ∀ text, ¬ inputs.Holds source text
  | notJson => ∃ source env name text, command = .evaluate source env name ∧ inputs.Holds source text ∧
    Json.ofText? text = none
  | formatName => ∃ env name, command.environment? = some env ∧ env.formatName = some name ∧
    Environment.Format.ofName? name = none
  | environment => ∃ env, command.environment? = some env ∧ ∀ text, ¬ inputs.Holds env.source text
  | table => ∃ env format text, command.environment? = some env ∧ env.format = .ok format ∧
    inputs.Holds env.source text ∧ ∀ t, ¬ format.Holds text t
  | evaluation => ∃ decoded, command.Evaluates inputs decoded ∧
    ∀ t, decoded = .ok t → ∃ r ∈ t.references, ¬ r.WellFormed
  | outputFormat => ∃ name, command.outputFormat? = some name ∧ name ≠ "text" ∧ name ≠ "json"
  | keptBlocks => ∃ input text, command = .check input true ∧ inputs.HoldsTemplate input text ∧
    ∃ b ∈ Template.blocks text.toList, Template.isCode text.toList b = false

end Stage

/-- The stages of a command, in their order. -/
def Command.stages : Command → List Stage
  | .parse _ => [.input]
  | .render .. | .evaluate .. =>
    [.sharedStdin, .input, .notJson, .formatName, .environment, .table, .evaluation, .outputFormat]
  | .check .. => [.input, .keptBlocks]

/-- The exit code of stages one after the other: that of the first that fails, or 0. -/
inductive ExitsWith (Fails : Stage → Prop) : List Stage → Nat → Prop where
  | passed : ExitsWith Fails [] 0
  | failed {stage : Stage} {rest : List Stage} (h : Fails stage) : ExitsWith Fails (stage :: rest) stage.exitCode
  | next {stage : Stage} {rest : List Stage} {code : Nat} (h : ¬ Fails stage) (others : ExitsWith Fails rest code) :
      ExitsWith Fails (stage :: rest) code

/-! ## Steps of a run -/

/-- The exit code of what gives a result or fails. -/
def exitCodeOf {α : Type} : Except Error α → Nat
  | .ok _ => Status.success.exitCode
  | .error e => (Status.ofError e).exitCode

section
variable {α β : Type} {x : Except Error α} {f : α → Except Error β}

theorem exitCodeOf_error_ne_zero (e : Error) : exitCodeOf (.error e : Except Error α) ≠ 0 := by
  cases e <;> exact Nat.succ_ne_zero _

theorem exitCodeOf_map (g : α → β) : exitCodeOf (x.map g) = exitCodeOf x := by
  cases x <;> rfl

theorem exitCode_ofResult (notices : List Notice) (result : Except Error String) :
    (Report.ofResult notices result).status.exitCode = exitCodeOf result := by
  cases result <;> rfl

theorem output_ofResult {notices : List Notice} {result : Except Error String}
    (h : (Report.ofResult notices result).status.exitCode ≠ 0) : (Report.ofResult notices result).output = "" := by
  cases result with
  | ok => exact absurd rfl h
  | error => rfl

namespace ExitsWith

variable {Fails : Stage → Prop} {stages stages' : List Stage}

theorem append_of_ne_zero {code : Nat} (h : ExitsWith Fails stages code) (hcode : code ≠ 0) :
    ExitsWith Fails (stages ++ stages') code := by
  induction h with
  | passed => exact absurd rfl hcode
  | failed hfails => exact .failed hfails
  | next hnot _ ih => exact .next hnot (ih hcode)

theorem append_of_zero {code : Nat} (h : ExitsWith Fails stages 0) (h' : ExitsWith Fails stages' code) :
    ExitsWith Fails (stages ++ stages') code := by
  generalize hzero : 0 = first at h
  induction h with
  | passed => exact h'
  | @failed stage => cases stage <;> cases hzero
  | next hnot _ ih => exact .next hnot (ih hzero)

/-- One step after the other. -/
theorem bind (h : ExitsWith Fails stages (exitCodeOf x))
    (hf : ∀ a, x = .ok a → ExitsWith Fails stages' (exitCodeOf (f a))) :
    ExitsWith Fails (stages ++ stages') (exitCodeOf (x >>= f)) := by
  cases x with
  | ok a => exact h.append_of_zero (hf a rfl)
  | error e => exact h.append_of_ne_zero (exitCodeOf_error_ne_zero e)

end ExitsWith
end

/-! ## The stages of a command -/

section
variable {inputs : Inputs}

theorem exits_singleStdin (what : String) (command : Command) :
    ExitsWith (Stage.Fails inputs command) [.sharedStdin]
      (exitCodeOf (singleStdin what command.inputSource? command.environment?)) := by
  have hfails : (command.inputSource?.any Source.isStdin && command.environment?.any (·.source.isStdin)) = true ↔
      Stage.Fails inputs command .sharedStdin := by
    rw [Stage.Fails, Bool.and_eq_true, Option.any_eq_true, Option.any_eq_true]
    constructor
    · rintro ⟨⟨source, hsource, hstdin⟩, env, henv, hstdin'⟩
      exact ⟨source, env, hsource, henv, hstdin, hstdin'⟩
    · rintro ⟨source, env, hsource, henv, hstdin, hstdin'⟩
      exact ⟨⟨source, hsource, hstdin⟩, env, henv, hstdin'⟩
  rw [singleStdin]
  by_cases h : (command.inputSource?.any Source.isStdin && command.environment?.any (·.source.isStdin)) = true
  · rw [if_pos h]
    exact .failed (hfails.1 h)
  · rw [if_neg h]
    exact .next (h ∘ hfails.2) .passed

/-- Reading a source is a stage that fails if no text is read. -/
theorem exits_text {Fails : Stage → Prop} {stage : Stage} {source : Source} (hcode : stage.exitCode = 3)
    (h : Fails stage ↔ ∀ text, ¬ inputs.Holds source text) :
    ExitsWith Fails [stage] (exitCodeOf (inputs.text source)) := by
  cases hread : inputs.text source with
  | ok text =>
    refine .next (fun hfails => ?_) .passed
    exact h.1 hfails text (Inputs.text_eq_ok_iff.1 hread)
  | error e =>
    obtain ⟨hnone, reason, rfl⟩ := Inputs.text_eq_error hread
    have hio (e : String) : exitCodeOf (.error (.io e) : Except Error String) = stage.exitCode := hcode.symm
    rw [hio]
    exact .failed (h.2 hnone)

theorem exits_input {command : Command} {source : Source} (h : command.inputSource? = some source) :
    ExitsWith (Stage.Fails inputs command) [.input] (exitCodeOf (inputs.text source)) :=
  exits_text rfl (by simp [Stage.Fails, h])

theorem exits_template {command : Command} {input : TemplateInput} (h : command.inputSource? = input.source?) :
    ExitsWith (Stage.Fails inputs command) [.input] (exitCodeOf (inputs.template input)) := by
  cases input with
  | source source => exact exits_input h
  | inline template =>
    refine .next ?_ .passed
    rintro ⟨source, hsource, -⟩
    cases h.symm.trans hsource

theorem exits_tree (source : Source) (env : Option EnvironmentInput) (formatName : String) :
    ExitsWith (Stage.Fails inputs (.evaluate source env formatName)) [.input, .notJson]
      (exitCodeOf (inputs.tree source)) := by
  refine ExitsWith.bind (exits_input rfl) fun text htext => ?_
  have hholds := Inputs.text_eq_ok_iff.1 htext
  cases hjson : Json.ofText? text with
  | none => exact .failed ⟨source, env, formatName, text, rfl, hholds, hjson⟩
  | some tree =>
    refine .next ?_ .passed
    rintro ⟨source', env', formatName', text', hcommand, hholds', hjson'⟩
    cases hcommand
    cases hholds.unique hholds'
    cases hjson.symm.trans hjson'

theorem exits_formatName {command : Command} {env : EnvironmentInput} (h : command.environment? = some env) :
    ExitsWith (Stage.Fails inputs command) [.formatName] (exitCodeOf env.format) := by
  rw [EnvironmentInput.format]
  cases hname : env.formatName with
  | none =>
    refine .next ?_ .passed
    rintro ⟨env', name, henv, hname', -⟩
    cases h.symm.trans henv
    cases hname.symm.trans hname'
  | some name =>
    cases hformat : Environment.Format.ofName? name with
    | none =>
      simp only [hformat]
      exact .failed ⟨env, name, h, hname, hformat⟩
    | some format =>
      simp only [hformat]
      refine .next ?_ .passed
      rintro ⟨env', name', henv, hname', hnone⟩
      cases h.symm.trans henv
      cases hname.symm.trans hname'
      cases hformat.symm.trans hnone

theorem exits_table {command : Command} {env : Option EnvironmentInput} (h : command.environment? = env) :
    ExitsWith (Stage.Fails inputs command) [.formatName, .environment, .table] (exitCodeOf (inputs.table env)) := by
  cases env with
  | none =>
    have hnone (env : EnvironmentInput) : command.environment? ≠ some env := by simp [h]
    refine .next ?_ (.next ?_ (.next ?_ .passed))
    · rintro ⟨env, name, henv, -⟩
      exact hnone env henv
    · rintro ⟨env, henv, -⟩
      exact hnone env henv
    · rintro ⟨env, format, text, henv, -⟩
      exact hnone env henv
  | some env =>
    refine ExitsWith.bind (exits_formatName h) fun format hformat => ?_
    refine ExitsWith.bind (exits_text rfl (by simp [Stage.Fails, h])) fun text htext => ?_
    have hholds := Inputs.text_eq_ok_iff.1 htext
    rw [Environment.ofFile]
    cases hread : format.read? text with
    | none =>
      refine .failed ⟨env, format, text, h, hformat, hholds, fun t ht => ?_⟩
      cases hread.symm.trans (Environment.Format.read?_eq_some_iff.2 ht)
    | some table =>
      refine .next ?_ .passed
      rintro ⟨env', format', text', henv, hformat', hholds', hnone⟩
      cases h.symm.trans henv
      cases hformat.symm.trans hformat'
      cases hholds.unique hholds'
      exact hnone table (Environment.Format.read?_eq_some_iff.1 hread)

theorem exits_format {command : Command} {name : String} (h : command.outputFormat? = some name) (value : Rendered) :
    ExitsWith (Stage.Fails inputs command) [.outputFormat] (exitCodeOf (format name value)) := by
  rw [format]
  by_cases htext : name = "text"
  · rw [if_pos htext]
    refine .next ?_ .passed
    rintro ⟨name', hname, hne, -⟩
    cases h.symm.trans hname
    exact hne htext
  rw [if_neg htext]
  by_cases hjson : name = "json"
  · rw [if_pos hjson]
    refine .next ?_ .passed
    rintro ⟨name', hname, -, hne⟩
    cases h.symm.trans hname
    exact hne hjson
  · rw [if_neg hjson]
    exact .failed ⟨name, h, htext, hjson⟩

/-- Whether a tree is evaluated does not depend on the environment. -/
theorem exits_evaluation {command : Command} {decoded : Except TreeError Template}
    (h : command.Evaluates inputs decoded) (env : Environment) :
    ExitsWith (Stage.Fails inputs command) [.evaluation]
      (exitCodeOf ((decoded.bind fun t => (evaluate env t).result).mapError Error.tree)) := by
  have hfails : Stage.Fails inputs command .evaluation ↔
      ∃ error, (decoded.bind fun t => (evaluate env t).result) = .error error := by
    constructor
    · rintro ⟨decoded', h', hbad⟩
      cases h.unique h'
      cases decoded with
      | error error => exact ⟨error, rfl⟩
      | ok t => exact (evaluate_fails_iff env).2 (hbad t rfl)
    · intro herror
      refine ⟨decoded, h, ?_⟩
      rintro t rfl
      exact (evaluate_fails_iff env).1 herror
  cases hresult : decoded.bind fun t => (evaluate env t).result with
  | error error => exact .failed (hfails.2 ⟨error, hresult⟩)
  | ok value =>
    refine .next (fun hbad => ?_) .passed
    obtain ⟨error, herror⟩ := hfails.1 hbad
    cases hresult.symm.trans herror

end

/-! ## Whole commands -/

theorem result_evaluateJson (env : Environment) (tree : Json) :
    (evaluateJson env tree).result = (Template.ofJson tree).bind fun t => (evaluate env t).result := by
  rw [evaluateJson]
  cases Template.ofJson tree <;> rfl

section
variable (inputs : Inputs) (verbose : Bool) (env : Option EnvironmentInput) (name : String)

theorem exitCode_reportOutcome (before : List LogEntry) (outcome : Outcome) :
    (reportOutcome verbose name before outcome).status.exitCode =
    exitCodeOf ((outcome.result.mapError Error.tree).bind (format name)) := by
  rw [reportOutcome, exitCode_ofResult, exitCodeOf_map]
  cases outcome.result.mapError Error.tree with
  | error e => rfl
  | ok value => exact exitCodeOf_map _

theorem exits_render (input : TemplateInput) :
    ExitsWith (Stage.Fails inputs (.render input env name)) (Command.render input env name).stages
      (run inputs verbose (.render input env name)).status.exitCode := by
  have hrun : (run inputs verbose (.render input env name)).status.exitCode =
      exitCodeOf (do
        singleStdin "template" input.source? env
        let text ← inputs.template input
        let table ← inputs.table env
        ((render table.environment text).result.mapError Error.tree).bind (format name)) := by
    rw [run]
    cases singleStdin "template" input.source? env with
    | error e => rfl
    | ok =>
      cases inputs.template input with
      | error e => rfl
      | ok text =>
        cases inputs.table env with
        | error e => rfl
        | ok table => exact exitCode_reportOutcome verbose name _ _
  rw [hrun]
  refine ExitsWith.bind (exits_singleStdin _ (.render input env name)) fun _ _ => ExitsWith.bind (exits_template rfl) fun text htext => ?_
  have hjson : ¬ Stage.Fails inputs (.render input env name) .notJson := by
    rintro ⟨source, env, name, text, hcommand, -⟩
    cases hcommand
  refine .next hjson (ExitsWith.bind (exits_table rfl) fun table _ => ?_)
  have hevaluates : (Command.render input env name).Evaluates inputs (.ok (Template.parse text)) :=
    .template (Inputs.template_eq_ok_iff.1 htext)
  exact ExitsWith.bind (exits_evaluation hevaluates table.environment) fun value _ => exits_format rfl value

theorem exits_evaluate (source : Source) :
    ExitsWith (Stage.Fails inputs (.evaluate source env name)) (Command.evaluate source env name).stages
      (run inputs verbose (.evaluate source env name)).status.exitCode := by
  have hrun : (run inputs verbose (.evaluate source env name)).status.exitCode =
      exitCodeOf (do
        singleStdin "AST" (some source) env
        let tree ← inputs.tree source
        let table ← inputs.table env
        ((evaluateJson table.environment tree).result.mapError Error.tree).bind (format name)) := by
    rw [run]
    cases singleStdin "AST" (some source) env with
    | error e => rfl
    | ok =>
      cases inputs.tree source with
      | error e => rfl
      | ok tree =>
        cases inputs.table env with
        | error e => rfl
        | ok table => exact exitCode_reportOutcome verbose name _ _
  rw [hrun]
  refine ExitsWith.bind (exits_singleStdin _ (.evaluate source env name)) fun _ _ => ?_
  refine ExitsWith.bind (exits_tree source env name) fun tree htree => ?_
  refine ExitsWith.bind (exits_table rfl) fun table _ => ?_
  obtain ⟨text, hholds, hjson⟩ := Inputs.exists_text_of_tree htree
  have hevaluates : (Command.evaluate source env name).Evaluates inputs (Template.ofJson tree) := .tree hholds hjson
  rw [result_evaluateJson]
  exact ExitsWith.bind (exits_evaluation hevaluates table.environment) fun value _ => exits_format rfl value

theorem exits_parse (input : TemplateInput) :
    ExitsWith (Stage.Fails inputs (.parse input)) (Command.parse input).stages
      (run inputs verbose (.parse input)).status.exitCode := by
  have hrun : (run inputs verbose (.parse input)).status.exitCode = exitCodeOf (inputs.template input) := by
    rw [run]
    cases inputs.template input <;> rfl
  rw [hrun]
  exact exits_template rfl

end

/-! ## Blocks that are kept -/

theorem isSome_blockWarning? (source : List Char) (b : Piece) :
    (Template.blockWarning? source b).isSome = !Template.isCode source b := by
  rw [Template.blockWarning?, Template.isCode]
  cases Template.blockTree source b <;> rfl

/-- How many blocks of a template are kept as text. -/
def keptCount (text : String) : Nat :=
  (Template.blocks text.toList).countP fun b => !Template.isCode text.toList b

theorem length_warnings (text : String) : (Template.parseWithWarnings text).2.length = keptCount text := by
  rw [Template.warnings_parseWithWarnings, List.length_filterMap_eq_countP]
  exact congrArg (List.countP · _) (funext (isSome_blockWarning? text.toList))

theorem keptCount_ne_zero_iff {text : String} :
    keptCount text ≠ 0 ↔ ∃ b ∈ Template.blocks text.toList, Template.isCode text.toList b = false := by
  rw [keptCount, ← Nat.pos_iff_ne_zero, List.countP_pos_iff]
  simp only [Bool.not_eq_true']

/-- The lines that `check` prints of a block: none if it is an expression, otherwise where it stands, that it is kept,
and what is wrong with it. -/
def blockLines (name : String) (source : List Char) (b : Piece) : List String :=
  match Template.blockTree source b with
  | .ok _ => []
  | .error cause =>
    let place := Location.atOffset source b.start 0
    let message := "code block kept as literal text: " ++ cause.message
    ("warning: " ++ name ++ ":" ++ toString place.line ++ ":" ++ toString place.column ++ ": " ++ message) ::
      Notice.describe (.syntactic cause)

theorem blockLines_eq (name : String) (source : List Char) (b : Piece) : blockLines name source b =
    (Template.blockWarning? source b).toList.flatMap fun w => (Notice.warning name w).lines := by
  rw [blockLines, Template.blockWarning?]
  cases Template.blockTree source b with
  | ok e => rfl
  | error cause =>
    rw [Option.toList_some, List.flatMap_singleton, Notice.lines]
    dsimp only [Warning.message]

theorem lines_warnings (name text : String) :
    ((Template.parseWithWarnings text).2.map (Notice.warning name)).flatMap Notice.lines =
      (Template.blocks text.toList).flatMap (blockLines name text.toList) := by
  rw [Template.warnings_parseWithWarnings, List.filterMap_eq_flatMap_toList, List.flatMap_map, List.flatMap_assoc]
  exact congrArg (List.flatMap · _) (funext fun b => (blockLines_eq name text.toList b).symm)

/-- The lines that close a check of `count` blocks that are kept. -/
def closingLines (name : String) (strict : Bool) (count : Nat) : List String :=
  if strict ∧ count ≠ 0 then Notice.describe (.strict count)
  else [if count = 0 then name ++ ": OK" else name ++ ": " ++ toString count ++ " warning(s)"]

section
variable {inputs : Inputs} (verbose : Bool) {input : TemplateInput} (strict : Bool) {text : String}

/-- The report on a template that is read. -/
theorem run_check (h : inputs.HoldsTemplate input text) :
    run inputs verbose (.check input strict) =
      let warnings := (Template.parseWithWarnings text).2
      let notices := shown verbose (warnings.map .kept) ++ warnings.map (.warning input.name)
      if strict ∧ keptCount text ≠ 0 then .ofResult notices (.error (.strict (keptCount text)))
      else .ofResult (notices ++ [.kept input.name (keptCount text)]) (.ok "") := by
  rw [run, Inputs.template_eq_ok_iff.2 h, ← length_warnings]
  simp

/-- What stays text is a failure of a strict check. -/
theorem fails_keptBlocks_iff : Stage.Fails inputs (.check input strict) .keptBlocks ↔
    strict = true ∧ ∃ text, inputs.HoldsTemplate input text ∧ keptCount text ≠ 0 := by
  simp only [keptCount_ne_zero_iff]
  constructor
  · rintro ⟨input', text, hcommand, h⟩
    cases hcommand
    exact ⟨rfl, text, h⟩
  · rintro ⟨rfl, text, h⟩
    exact ⟨input, text, rfl, h⟩

theorem exits_check (inputs : Inputs) (input : TemplateInput) :
    ExitsWith (Stage.Fails inputs (.check input strict)) (Command.check input strict).stages
      (run inputs verbose (.check input strict)).status.exitCode := by
  have hread : ExitsWith (Stage.Fails inputs (.check input strict)) [.input] (exitCodeOf (inputs.template input)) :=
    exits_template rfl
  cases hinput : inputs.template input with
  | error e =>
    rw [hinput] at hread
    rw [run, hinput]
    exact hread.append_of_ne_zero (exitCodeOf_error_ne_zero e)
  | ok text =>
    rw [hinput] at hread
    have hholds := Inputs.template_eq_ok_iff.1 hinput
    have hkept : Stage.Fails inputs (.check input strict) .keptBlocks ↔ strict = true ∧ keptCount text ≠ 0 := by
      rw [fails_keptBlocks_iff]
      refine and_congr_right fun _ => ⟨?_, fun hcount => ⟨text, hholds, hcount⟩⟩
      rintro ⟨text', hholds', hcount⟩
      rwa [hholds.unique hholds']
    refine hread.append_of_zero ?_
    rw [run_check verbose strict hholds]
    dsimp only
    by_cases hstrict : strict = true ∧ keptCount text ≠ 0
    · rw [if_pos hstrict]
      exact .failed (hkept.2 hstrict)
    · rw [if_neg hstrict]
      exact .next (hstrict ∘ hkept.1) .passed

/-- A block that is kept is logged at a level that is shown only on demand. -/
theorem shown_kept (warnings : List Warning) : ∃ logged : List LogEntry, (verbose = false → logged = []) ∧
    shown verbose (warnings.map .kept) = logged.map .log := by
  refine ⟨_, fun hquiet => ?_, rfl⟩
  rw [List.filter_eq_nil_iff]
  simp [LogEntry.level, hquiet]

theorem lines_check (h : inputs.HoldsTemplate input text) :
    ∃ logged : List LogEntry, (verbose = false → logged = []) ∧
      (run inputs verbose (.check input strict)).notices.flatMap Notice.lines =
        (logged.map Notice.log).flatMap Notice.lines ++
          (Template.blocks text.toList).flatMap (blockLines input.name text.toList) ++
            closingLines input.name strict (keptCount text) := by
  obtain ⟨logged, hquiet, hshown⟩ := shown_kept verbose (Template.parseWithWarnings text).2
  refine ⟨logged, hquiet, ?_⟩
  rw [run_check verbose strict h]
  dsimp only
  rw [← lines_warnings, closingLines, hshown]
  by_cases hstrict : strict = true ∧ keptCount text ≠ 0
  · rw [if_pos hstrict, if_pos hstrict, Report.ofResult]
    simp only [List.flatMap_append, List.flatMap_singleton, Notice.lines]
  · rw [if_neg hstrict, if_neg hstrict, Report.ofResult]
    simp only [List.flatMap_append, List.flatMap_singleton, Notice.lines]

end

/-! ## Command lines -/

/-- How a run ends that a command line asks for. -/
structure Ends (inputs : Inputs) (invocation : Invocation) (report : Report) : Prop where
  exits : ExitsWith (Stage.Fails inputs invocation.command) invocation.command.stages report.status.exitCode
  /-- What is parsed is never refused by the evaluator. -/
  evaluates : ∀ input env name, invocation.command = .render input env name →
    ¬ Stage.Fails inputs invocation.command .evaluation
  strict : ∀ input strict, invocation.command = .check input strict →
    (report.status.exitCode = 1 ↔ strict = true ∧ ∃ text, inputs.HoldsTemplate input text ∧
      ∃ b ∈ Template.blocks text.toList, Template.isCode text.toList b = false)
  /-- A check reports block by block, behind what is logged. -/
  reports : ∀ input strict text, invocation.command = .check input strict → inputs.HoldsTemplate input text →
    ∃ logged : List LogEntry, (invocation.verbose = false → logged = []) ∧
      report.notices.flatMap Notice.lines = (logged.map Notice.log).flatMap Notice.lines ++
        (Template.blocks text.toList).flatMap (blockLines input.name text.toList) ++
          closingLines input.name strict (keptCount text)
  silent : report.status.exitCode ≠ 0 → report.output = ""

theorem exits_run (inputs : Inputs) (verbose : Bool) (command : Command) :
    ExitsWith (Stage.Fails inputs command) command.stages (run inputs verbose command).status.exitCode := by
  cases command with
  | parse input => exact exits_parse inputs verbose input
  | render input env name => exact exits_render inputs verbose env name input
  | evaluate source env name => exact exits_evaluate inputs verbose env name source
  | check input strict => exact exits_check verbose strict inputs input

/-- The parser lets no reference through that is not well formed. -/
theorem not_fails_evaluation_render {inputs : Inputs} (input : TemplateInput) (env : Option EnvironmentInput)
    (name : String) : ¬ Stage.Fails inputs (.render input env name) .evaluation := by
  rintro ⟨decoded, hevaluates, hbad⟩
  cases hevaluates with
  | @template _ _ _ text =>
    obtain ⟨r, hr, hr'⟩ := hbad (Template.parse text) rfl
    exact hr' (Reference.wellFormed_iff.2 (Template.defect?_of_parse r hr))

theorem not_fails_input {inputs : Inputs} {input : TemplateInput} {text : String} {command : Command}
    (hcommand : command.inputSource? = input.source?) (h : inputs.HoldsTemplate input text) :
    ¬ Stage.Fails inputs command .input := by
  rintro ⟨source, hsource, hnone⟩
  rw [hcommand] at hsource
  cases input with
  | inline => cases hsource
  | source =>
    cases hsource
    exact hnone text h

theorem exitCode_check_eq_one_iff (inputs : Inputs) (verbose : Bool) (input : TemplateInput) (strict : Bool) :
    (run inputs verbose (.check input strict)).status.exitCode = 1 ↔
      strict = true ∧ ∃ text, inputs.HoldsTemplate input text ∧ keptCount text ≠ 0 := by
  rw [← fails_keptBlocks_iff]
  have hexits := exits_check verbose strict inputs input
  generalize (run inputs verbose (.check input strict)).status.exitCode = code at hexits
  cases hexits with
  | failed hinput =>
    constructor
    · intro hcode
      cases hcode
    · intro hfails
      obtain ⟨-, text, hholds, -⟩ := (fails_keptBlocks_iff strict).1 hfails
      exact absurd hinput (not_fails_input rfl hholds)
  | next _ others =>
    cases others with
    | failed hfails => exact ⟨fun _ => hfails, fun _ => rfl⟩
    | next hnot others =>
      cases others with
      | passed => exact ⟨fun hcode => absurd hcode Nat.zero_ne_one, fun hfails => absurd hfails hnot⟩

/-- What has not succeeded has no output. -/
theorem output_run {inputs : Inputs} {verbose : Bool} {command : Command}
    (h : (run inputs verbose command).status.exitCode ≠ 0) : (run inputs verbose command).output = "" := by
  have hreport : ∃ notices result, run inputs verbose command = .ofResult notices result := by
    cases command with
    | parse input =>
      rw [run]
      cases inputs.template input <;> exact ⟨_, _, rfl⟩
    | render input env name =>
      rw [run]
      split <;> exact ⟨_, _, rfl⟩
    | evaluate source env name =>
      rw [run]
      split <;> exact ⟨_, _, rfl⟩
    | check input strict =>
      rw [run]
      cases inputs.template input with
      | error e => exact ⟨_, _, rfl⟩
      | ok text =>
        dsimp only
        split <;> exact ⟨_, _, rfl⟩
  obtain ⟨notices, result, hrun⟩ := hreport
  rw [hrun] at h ⊢
  exact output_ofResult h

/-- **How commands end**, whatever they can read. -/
theorem ends_runArguments {inputs : Inputs} {words : List String} {invocation : Invocation}
    (h : Invocation.ofArguments words = .ok invocation) : Ends inputs invocation (runArguments inputs words) := by
  rw [runArguments, h]
  obtain ⟨verbose, command⟩ := invocation
  refine ⟨exits_run inputs verbose command, ?_, ?_, ?_, output_run⟩
  · rintro input env name rfl
    exact not_fails_evaluation_render input env name
  · rintro input strict rfl
    simp only [← keptCount_ne_zero_iff]
    exact exitCode_check_eq_one_iff inputs verbose input strict
  · rintro input strict text rfl hholds
    exact lines_check verbose strict hholds

/-- A block that is no expression, and no file that could be read. -/
theorem ends_strictCheck :
    Invocation.ofArguments ["check", "--strict", "-e", "\x7b\x7b1 +\x7d\x7d"] =
      .ok ⟨false, .check (.inline "\x7b\x7b1 +\x7d\x7d") true⟩ ∧
    Ends ⟨.empty, fun _ => none⟩ ⟨false, .check (.inline "\x7b\x7b1 +\x7d\x7d") true⟩
      (runArguments ⟨.empty, fun _ => none⟩ ["check", "--strict", "-e", "\x7b\x7b1 +\x7d\x7d"]) := by
  have hwords : Invocation.ofArguments ["check", "--strict", "-e", "\x7b\x7b1 +\x7d\x7d"] =
    .ok ⟨false, .check (.inline "\x7b\x7b1 +\x7d\x7d") true⟩ := by rfl
  exact ⟨hwords, ends_runArguments hwords⟩

/-- The format of an environment is asked for before the environment is read, and only then that of the output. -/
example : (runArguments ⟨.empty, fun _ => none⟩
    ["render", "-e", "x", "--env", "table", "--env-format", "toml", "-f", "xml"]).status.exitCode = 1 := by rfl

end PropertyExpr.Cli
