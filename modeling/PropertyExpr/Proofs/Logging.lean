import PropertyExpr.Proofs.Composer
import PropertyExpr.Proofs.Stopping
/-!
# What is logged

Nothing that a template asks for in vain makes it fail, so the log is all that is seen of it. `logs_render` says what
the log of a template is, message by message: one for each block that is kept as text, behind them one for each
reference whose answer renders as nothing, both in the order of the source, and no other.

A composer logs a block where it warns of it, so its log stays in step with its warnings (`LoggingComposer.InStep`). An
evaluation logs each reference that it asks for and misses, behind whatever is logged already (`Evaluation.Reports`).
That holds of each of its steps, and of steps one after the other, whether they fail or not. A rank below 1 is a defect,
and a reference with a defect is not resolved, so nothing is ever logged of a rank.
-/
namespace PropertyExpr

/-! ## Blocks -/

namespace Template

/-- A composer with what it has logged. -/
structure LoggingComposer extends Composer where
  log : List LogEntry

namespace LoggingComposer

def start : LoggingComposer := { Composer.start with log := [] }

/-- A block that is no expression is logged where it is warned of (`Composer::push_fallback`). -/
def pushKept (c : LoggingComposer) (warning : Warning) : LoggingComposer :=
  { c.toComposer.pushKept warning with log := c.log ++ [.kept warning] }

/-- Passes one piece, as a composer does. -/
def push (source : List Char) (c : LoggingComposer) (p : Piece) : LoggingComposer :=
  match p with
  | .text .. => { c.toComposer.pushText (blockText source p) with log := c.log }
  | .block start _ =>
    let place := c.cursor.advanceTo source start
    let cursor := place.advanceTo source p.innerRange.1
    match Expr.parseRangeAt source p.innerRange.1 p.innerRange.2 cursor with
    | .ok e => { { c.toComposer with cursor }.pushCode e with log := c.log }
    | .error cause => { c with cursor }.pushKept ⟨String.ofList (blockText source p), place, cause⟩

variable {source : List Char} {c : LoggingComposer}

/-- Logging changes nothing else. -/
theorem toComposer_push (p : Piece) : (c.push source p).toComposer = c.toComposer.push source p := by
  cases p with
  | text start content => rfl
  | block start inner =>
    simp only [push, Composer.push]
    cases Expr.parseRangeAt source (Piece.block start inner).innerRange.1 (Piece.block start inner).innerRange.2
      ((c.cursor.advanceTo source start).advanceTo source (Piece.block start inner).innerRange.1) <;> rfl

theorem toComposer_foldl_push (pieces : List Piece) :
    (pieces.foldl (push source) c).toComposer = pieces.foldl (Composer.push source) c.toComposer := by
  induction pieces generalizing c with
  | nil => rfl
  | cons p pieces ih => rw [List.foldl_cons, List.foldl_cons, ih, toComposer_push]

/-- What was logged is what was warned of. -/
def InStep (c : LoggingComposer) : Prop := c.log = c.warnings.map .kept

theorem InStep.pushKept (h : c.InStep) (warning : Warning) : (c.pushKept warning).InStep := by
  have hwarnings : (c.pushKept warning).warnings = c.warnings ++ [warning] := rfl
  have hlog : (c.pushKept warning).log = c.log ++ [.kept warning] := rfl
  rw [InStep, hwarnings, hlog, h, List.map_append, List.map_singleton]

theorem InStep.push (h : c.InStep) (p : Piece) : (c.push source p).InStep := by
  cases p with
  | text start content => exact h
  | block start inner =>
    simp only [LoggingComposer.push]
    split
    · exact h
    · exact InStep.pushKept h _

theorem InStep.foldl_push (h : c.InStep) (pieces : List Piece) :
    (pieces.foldl (LoggingComposer.push source) c).InStep := by
  induction pieces generalizing c with
  | nil => exact h
  | cons p pieces ih => exact ih (h.push p)

end LoggingComposer

/-- What `compose` makes of a source, with what is logged in the pass. -/
def composeLogged (source : String) : (Template × List Warning) × List LogEntry :=
  let c := (Piece.split source.toList).foldl (LoggingComposer.push source.toList) .start
  (c.finish, c.log)

theorem composeLogged_eq (source : String) :
    composeLogged source = (parseWithWarnings source, (parseWithWarnings source).2.map .kept) := by
  have hstart : LoggingComposer.start.InStep := rfl
  have hlog : ((Piece.split source.toList).foldl (LoggingComposer.push source.toList) .start).InStep :=
    hstart.foldl_push _
  have hmade : (composeLogged source).1 = compose source :=
    congrArg Composer.finish (LoggingComposer.toComposer_foldl_push (Piece.split source.toList))
  rw [← compose_eq_parseWithWarnings, ← hmade]
  exact Prod.ext rfl hlog

/-- What is logged of a block that is no expression. -/
def keptLine? (source : List Char) (b : Piece) : Option (LogLevel × String) :=
  match blockTree source b with
  | .ok _ => none
  | .error cause =>
    let block := String.ofList (blockText source b)
    some (.debug, "keeping " ++ Text.quoted block ++ " as literal text: " ++ cause.message)

/-- The warnings of a source are logged block by block. -/
theorem map_line_kept (source : String) :
    ((parseWithWarnings source).2.map LogEntry.kept).map (fun entry => (entry.level, entry.message)) =
      (blocks source.toList).filterMap (keptLine? source.toList) := by
  rw [warnings_parseWithWarnings, List.map_map, List.map_filterMap]
  refine List.filterMap_congr fun b _ => ?_
  rw [blockWarning?, keptLine?]
  cases blockTree source.toList b <;> rfl

end Template

/-! ## Answers -/

namespace Environment

/-- References with what they are answered, asked in this order when `asked` was asked before. -/
def answers (env : Environment) : (asked refs : List Reference) → List (Reference × Except LookupError Value)
  | _, [] => []
  | asked, r :: refs => (r, env.answer asked r) :: answers env (r :: asked) refs

theorem answers_append (env : Environment) (asked refs refs' : List Reference) : env.answers asked (refs ++ refs') =
    env.answers asked refs ++ env.answers (refs.reverse ++ asked) refs' := by
  induction refs generalizing asked with
  | nil => rfl
  | cons r refs ih =>
    rw [List.cons_append, answers, ih, answers, List.cons_append, List.reverse_cons, List.append_assoc,
      List.singleton_append]

end Environment

/-- Why an answer renders as nothing. -/
def Miss.ofAnswer? : Except LookupError Value → Option Miss
  | .error error => some (.failed error)
  | .ok value =>
    match value.render? with
    | some _ => none
    | none => some (.unrenderable value.typeName)

/-- What is logged of a reference that is answered so. -/
def missed? (q : Reference × Except LookupError Value) : Option LogEntry := (Miss.ofAnswer? q.2).map (.missed q.1)

/-- What the message says of a reference that is answered so. A number and a text are silent. -/
def missedLine? : Reference × Except LookupError Value → Option (LogLevel × String)
  | (_, .ok (.int _)) | (_, .ok (.float _)) | (_, .ok (.string _)) => none
  | (r, .error error) => some (.trace, r.display ++ ": " ++ error.message)
  | (r, .ok .null) => some (.trace, r.display ++ ": " ++ "null value does not render")
  | (r, .ok (.bool _)) => some (.trace, r.display ++ ": " ++ "bool value does not render")
  | (r, .ok (.array _)) => some (.trace, r.display ++ ": " ++ "array value does not render")
  | (r, .ok (.object _)) => some (.trace, r.display ++ ": " ++ "object value does not render")

theorem map_line_missed (answers : List (Reference × Except LookupError Value)) :
    (answers.filterMap missed?).map (fun entry => (entry.level, entry.message)) = answers.filterMap missedLine? := by
  rw [List.map_filterMap]
  refine List.filterMap_congr fun q _ => ?_
  obtain ⟨r, answer⟩ := q
  cases answer with
  | error error => rfl
  | ok value => cases value <;> rfl

/-- A reference is missed if nothing of its answer renders. -/
theorem missed?_eq_none_iff {q : Reference × Except LookupError Value} : missed? q = none ↔ ¬ Unrendered q.2 := by
  obtain ⟨r, answer⟩ := q
  rw [missed?, Option.map_eq_none_iff]
  cases answer with
  | error error => simpa [Miss.ofAnswer?] using Unrendered.failed error
  | ok value =>
    rw [Miss.ofAnswer?, ← Value.render?_eq_none_iff]
    cases hrender : value.render? <;> simp

theorem missed?_ne_badRank (q : Reference × Except LookupError Value) (r : Reference) :
    missed? q ≠ some (.missed r .badRank) := by
  obtain ⟨r', answer⟩ := q
  cases answer with
  | error error => simp [missed?, Miss.ofAnswer?]
  | ok value =>
    rw [missed?, Miss.ofAnswer?]
    cases value.render? <;> simp

/-! ## Steps of an evaluation -/

namespace Evaluation

section
variable {α β : Type} {env : Environment}

/-- How an evaluation ends that leaves a trace. -/
def ending (trace : Trace) : Except TreeError α → EStateM.Result TreeError Trace α
  | .ok a => .ok a trace
  | .error error => .error error trace

/-- Whatever was logged before, an evaluation asks for the same references and comes to the same result. Behind what was
logged it logs what is missed in the answers, and nothing else. -/
def Reports (env : Environment) (m : Evaluation α) : Prop :=
  ∀ asked, ∃ refs result, ∀ log, EStateM.run m ⟨asked, log⟩ =
    ending ⟨refs.reverse ++ asked, ((env.answers asked refs).filterMap missed?).reverse ++ log⟩ result

theorem Reports.pure (a : α) : Reports env (pure a : Evaluation α) := fun _ => ⟨[], .ok a, fun _ => rfl⟩

theorem Reports.throw (error : TreeError) : Reports env (throw error : Evaluation α) := fun _ =>
  ⟨[], .error error, fun _ => rfl⟩

theorem Reports.bind {m : Evaluation α} {f : α → Evaluation β} (hm : Reports env m) (hf : ∀ a, Reports env (f a)) :
    Reports env (m >>= f) := by
  intro asked
  obtain ⟨refs, result, hrun⟩ := hm asked
  cases result with
  | error error =>
    refine ⟨refs, .error error, fun log => ?_⟩
    rw [EStateM.run_bind, hrun]
    rfl
  | ok a =>
    obtain ⟨refs', result', hrun'⟩ := hf a (refs.reverse ++ asked)
    refine ⟨refs ++ refs', result', fun log => ?_⟩
    have hfirst : EStateM.run (m >>= f) ⟨asked, log⟩ = EStateM.run (f a)
        ⟨refs.reverse ++ asked, ((env.answers asked refs).filterMap missed?).reverse ++ log⟩ := by
      rw [EStateM.run_bind, hrun]
      rfl
    rw [hfirst, hrun', Environment.answers_append, List.filterMap_append, List.reverse_append, List.reverse_append,
      List.append_assoc, List.append_assoc]

/-- Asking is one step with its answer: what is missed is logged at once. -/
theorem Reports.resolve {r : Reference} (hrank : ¬ r.rank < 1) : Reports env (resolve env r) := by
  intro asked
  refine ⟨[r], .ok (.ofAnswer (env.answer asked r)), fun log => ?_⟩
  rw [Evaluation.resolve, if_neg hrank, EStateM.run_bind, run_ask, Environment.answers, Environment.answers,
    List.filterMap_cons, missed?]
  cases env.answer asked r with
  | error error => rfl
  | ok value =>
    simp only [Rendered.ofAnswer, Miss.ofAnswer?]
    cases value.render? <;> rfl

theorem Reports.reference (r : Reference) : Reports env (reference env r) := by
  rw [Evaluation.reference]
  cases hdefect : r.defect? with
  | some defect => exact Reports.throw _
  | none =>
    have hrank := (Reference.defect?_eq_none_iff.1 hdefect).2.1
    exact Reports.resolve (by rw [Int64.lt_iff_toInt_lt]; exact Int.not_lt.2 hrank)

theorem Reports.expr (e : Expr) : Reports env (expr env e) := by
  induction e with
  | number n => exact Reports.pure _
  | string s => exact Reports.pure _
  | ref r => exact Reports.reference r
  | binary op left right ihl ihr => exact ihl.bind fun x => ihr.bind fun y => Reports.pure _

theorem Reports.segment (segment : Segment) : Reports env (Evaluation.segment env segment) := by
  cases segment with
  | text s => exact Reports.pure s
  | code e => exact (Reports.expr e).bind fun rendered => Reports.pure rendered.text

theorem Reports.segments (segments : List Segment) : Reports env (Evaluation.segments env segments) := by
  induction segments with
  | nil => exact Reports.pure []
  | cons segment segments ih => exact (Reports.segment segment).bind fun first => ih.bind fun others => Reports.pure _

theorem Reports.template (t : Template) : Reports env (Evaluation.template env t) := by
  cases t with
  | literal s => exact Reports.pure _
  | single e => exact Reports.expr e
  | composite segments => exact (Reports.segments segments).bind fun texts => Reports.pure _

end

/-- Runs an evaluation behind what is already logged. -/
def runBehind (earlier : List LogEntry) (m : Evaluation Rendered) : Outcome :=
  match m ⟨[], earlier.reverse⟩ with
  | .ok rendered trace => ⟨.ok rendered, trace.asked.reverse, trace.log.reverse⟩
  | .error error trace => ⟨.error error, trace.asked.reverse, trace.log.reverse⟩

section
variable {env : Environment} {m : Evaluation Rendered}

theorem run_eq_runBehind (m : Evaluation Rendered) : m.run = m.runBehind [] := rfl

theorem Reports.exists_runBehind (h : Reports env m) : ∃ refs result, ∀ earlier,
    m.runBehind earlier = ⟨result, refs, earlier ++ (env.answers [] refs).filterMap missed?⟩ := by
  obtain ⟨refs, result, hrun⟩ := h []
  refine ⟨refs, result, fun earlier => ?_⟩
  have hrun : m ⟨[], earlier.reverse⟩ = _ := hrun earlier.reverse
  rw [runBehind, hrun]
  cases result <;> simp [ending]

/-- Evaluations only add to the log. -/
theorem Reports.runBehind_eq (h : Reports env m) (earlier : List LogEntry) :
    m.runBehind earlier = { m.run with log := earlier ++ m.run.log } := by
  obtain ⟨refs, result, hrun⟩ := h.exists_runBehind
  rw [run_eq_runBehind, hrun, hrun]
  rfl

/-- The log of a run is what is missed in the answers to the references it asks for. -/
theorem Reports.log_run (h : Reports env m) : m.run.log = (env.answers [] m.run.asked).filterMap missed? := by
  obtain ⟨refs, result, hrun⟩ := h.exists_runBehind
  rw [run_eq_runBehind, hrun]
  rfl

/-- No rank is ever logged. -/
theorem Reports.badRank_notMem (h : Reports env m) (r : Reference) : .missed r .badRank ∉ m.run.log := by
  rw [h.log_run]
  intro hmem
  obtain ⟨q, -, hq⟩ := List.mem_filterMap.1 hmem
  exact missed?_ne_badRank q r hq

end

end Evaluation

/-! ## The log -/

section
variable (env : Environment)

theorem log_evaluate (t : Template) : (evaluate env t).log =
    (env.answers [] (t.references.takeWhile fun r => decide r.WellFormed)).filterMap missed? := by
  rw [← asked_eq_takeWhile env]
  exact (Evaluation.Reports.template t).log_run

/-- Every reference of a parsed template is asked for. -/
theorem asked_evaluate_parse (source : String) :
    (evaluate env (Template.parse source)).asked = (Template.parse source).references :=
  asked_evaluate env Template.defect?_of_parse

theorem log_evaluate_parse (source : String) : (evaluate env (Template.parse source)).log =
    (env.answers [] (Template.parse source).references).filterMap missed? := by
  rw [← asked_evaluate_parse env]
  exact (Evaluation.Reports.template _).log_run

/-- What is logged of a source: the blocks that are kept, then the references that are missed. -/
theorem log_render (source : String) : (render env source).log = (Template.parseWithWarnings source).2.map .kept ++
    (env.answers [] (Template.parse source).references).filterMap missed? := by
  rw [← log_evaluate_parse]
  rfl

/-- Parses in one pass and evaluates, with one log for both. -/
def renderLogged (source : String) : Outcome :=
  let pass := Template.composeLogged source
  (Evaluation.template env pass.1.1).runBehind pass.2

theorem renderLogged_eq (source : String) : renderLogged env source = render env source := by
  rw [renderLogged, Template.composeLogged_eq]
  exact (Evaluation.Reports.template _).runBehind_eq _

end

/-- What is logged in an environment. -/
structure Logs (env : Environment) : Prop where
  /-- One pass over a source logs each block where it warns of it. -/
  pass : ∀ source, Template.composeLogged source =
    (Template.parseWithWarnings source, (Template.parseWithWarnings source).2.map .kept)
  /-- What is evaluated logs behind that, in the same log. -/
  rendered : ∀ source, renderLogged env source = render env source
  /-- The blocks that are warned of are logged, then the references that are missed. -/
  entries : ∀ source, (render env source).log = (Template.parseWithWarnings source).2.map .kept ++
    (env.answers [] (Template.parse source).references).filterMap missed?
  /-- Level and text of each message, told by the blocks of the source and the answers of the environment. -/
  messages : ∀ source, (render env source).log.map (fun entry => (entry.level, entry.message)) =
    (Template.blocks source.toList).filterMap (Template.keptLine? source.toList) ++
      (env.answers [] (Template.parse source).references).filterMap missedLine?
  /-- Every reference of the template is asked for, in this order. -/
  asked : ∀ source, (render env source).asked = (Template.parse source).references
  /-- References that are found and render are not heard of. -/
  silent : ∀ source, (evaluate env (Template.parse source)).log = [] ↔
    ∀ q ∈ env.answers [] (Template.parse source).references, ¬ Unrendered q.2
  /-- A template that was not parsed is evaluated up to the first reference that is not well formed. -/
  built : ∀ t, (evaluate env t).log =
    (env.answers [] (t.references.takeWhile fun r => decide r.WellFormed)).filterMap missed?
  /-- No rank is ever logged. -/
  ranks : (∀ t r, LogEntry.missed r .badRank ∉ (evaluate env t).log) ∧
    ∀ e r, LogEntry.missed r .badRank ∉ (evaluateExpr env e).log

/-- **The log is what was kept and what was missed**, one message for each block that is kept as text and behind them
one for each reference whose answer renders as nothing. -/
theorem logs_render (env : Environment) : Logs env where
  pass := Template.composeLogged_eq
  rendered := renderLogged_eq env
  entries := log_render env
  messages source := by
    rw [log_render, List.map_append, Template.map_line_kept, map_line_missed]
  asked := asked_evaluate_parse env
  silent source := by
    rw [log_evaluate_parse, List.filterMap_eq_nil_iff]
    exact forall₂_congr fun q _ => missed?_eq_none_iff
  built := log_evaluate env
  ranks := by
    constructor
    · intro t r
      exact (Evaluation.Reports.template t).badRank_notMem r
    · intro e r
      exact (Evaluation.Reports.expr e).badRank_notMem r

/-- The rank of the second reference is an error, and not logged. -/
example : (evaluate .empty (.composite [.code (.ref ⟨"a", 1, "b"⟩), .text ", ", .code (.ref ⟨"a", 0, "b"⟩)])).log =
    [.missed ⟨"a", 1, "b"⟩ (.failed (.unknownSource "a"))] := by rfl

end PropertyExpr
