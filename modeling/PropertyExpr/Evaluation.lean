import PropertyExpr.Environment.Basic
import PropertyExpr.Template.Basic
import PropertyExpr.Value.Rendered
/-!
# Evaluation: `evaluator::Evaluator`

Operands are numbers, so `+` never joins texts. A reference that finds nothing renders as the empty text; the
one thing that fails is a reference that is not well formed. An evaluation leaves a trace: the references it
has asked the environment for, and what it logs.
-/
namespace PropertyExpr

/-- What an evaluation leaves behind, the latest first. -/
structure Trace where
  asked : List Reference
  log : List LogEntry

def Trace.start : Trace := ⟨[], []⟩

/-- An evaluation: its trace grows whether it succeeds or fails. -/
abbrev Evaluation := EStateM TreeError Trace

namespace Evaluation

variable (env : Environment)

/-- Asks the environment (`Environment::lookup`). -/
def ask (r : Reference) : Evaluation (Except LookupError Value) := fun trace =>
  .ok (env.answer trace.asked r) { trace with asked := r :: trace.asked }

/-- Logs that `r` resolved to nothing, which renders as the empty text. -/
def miss (r : Reference) (why : Miss) : Evaluation Rendered := do
  modify fun trace => { trace with log := .missed r why :: trace.log }
  return .empty

/-- What a reference renders as (`resolve_query`). A rank below 1 is not asked for. -/
def resolve (r : Reference) : Evaluation Rendered := do
  if r.rank < 1 then miss r .badRank
  else match ← ask env r with
    | .error error => miss r (.failed error)
    | .ok value =>
      match value.render? with
      | some rendered => return rendered
      | none => miss r (.unrenderable value.typeName)

/-- What a reference renders as, if it is well formed (`Evaluator::eval_reference`). -/
def reference (r : Reference) : Evaluation Rendered :=
  match r.defect? with
  | some defect => throw (.invalid r.toJson.text defect.message)
  | none => resolve env r

end Evaluation

/-- Double arithmetic (`Evaluator::eval_binary`): dividing by zero gives an infinity or no number. -/
def Operator.apply : Operator → Float → Float → Float
  | add, x, y => x + y
  | sub, x, y => x - y
  | mul, x, y => x * y
  | div, x, y => x / y

namespace Evaluation

variable (env : Environment)

/-- What a tree evaluates to (`Evaluator::eval_expr`). -/
def expr : Expr → Evaluation Rendered
  | .number n => return .number (Float.ofInt n.toInt)
  | .string s => return .string s
  | .ref r => reference env r
  | .binary op left right => do
    let x ← expr left
    let y ← expr right
    return .number (op.apply x.toNumber y.toNumber)

/-- The text of a segment. -/
def segment : Segment → Evaluation String
  | .text s => return s
  | .code e => return (← expr env e).text

/-- The texts of segments, evaluated one after the other. -/
def segments : List Segment → Evaluation (List String)
  | [] => return []
  | s :: rest => do
    let first ← segment env s
    let others ← segments rest
    return first :: others

/-- What a template evaluates to (`Evaluator::evaluate`). -/
def template : Template → Evaluation Rendered
  | .literal s => return .string s
  | .single e => expr env e
  | .composite parts => return .string (String.join (← segments env parts))

end Evaluation

/-- The result of an evaluation, with what it asked for and what it logged, each in order. -/
structure Outcome where
  result : Except TreeError Rendered
  asked : List Reference
  log : List LogEntry

/-- Runs an evaluation. -/
def Evaluation.run (evaluation : Evaluation Rendered) : Outcome :=
  match evaluation .start with
  | .ok rendered trace => ⟨.ok rendered, trace.asked.reverse, trace.log.reverse⟩
  | .error error trace => ⟨.error error, trace.asked.reverse, trace.log.reverse⟩

/-- Evaluates a template. -/
def evaluate (env : Environment) (t : Template) : Outcome := (Evaluation.template env t).run

/-- Evaluates an expression by itself (`evaluate_expr`). -/
def evaluateExpr (env : Environment) (e : Expr) : Outcome := (Evaluation.expr env e).run

/-- What a tree in JSON form fails with or evaluates to (`evaluate_json`). -/
def evaluateJson (env : Environment) (j : Json) : Outcome :=
  match Template.ofJson j with
  | .error error => ⟨.error error, [], []⟩
  | .ok t => evaluate env t

/-- Parses and evaluates a template. The log starts with the blocks kept as text. -/
def render (env : Environment) (source : String) : Outcome :=
  let (t, warnings) := Template.parseWithWarnings source
  let outcome := evaluate env t
  { outcome with log := warnings.map .kept ++ outcome.log }

end PropertyExpr
