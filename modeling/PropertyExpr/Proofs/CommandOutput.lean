import PropertyExpr.Cli.Run
import PropertyExpr.Proofs.Interchange
import PropertyExpr.Proofs.Rendering
import PropertyExpr.Proofs.Respelling
/-!
# The output of one command as the input of another

`result_of_printed` — what `parse` prints evaluates to what the template renders as, if no more arrays and objects
are open in it than the reader allows, and is refused otherwise. The parser lets through trees that are refused:
operators nest their left operands, and there may be more of them than levels (`refused_onesSource`).
-/
namespace PropertyExpr

/-! ## Commands -/

namespace Cli

variable {inputs : Inputs}

/-- What `parse` prints. -/
theorem output_run_parse (inputs : Inputs) (verbose : Bool) (source : String) :
    (run inputs verbose (.parse (.inline source))).output = (Template.parse source).printed := rfl

/-- A template by itself is rendered where no source is known. -/
theorem run_render_inline (inputs : Inputs) (verbose : Bool) (source formatName : String) :
    run inputs verbose (.render (.inline source) none formatName) =
      reportOutcome verbose formatName [] (render Table.empty.environment source) := rfl

theorem Inputs.text_stdin {source : Source} (h : source.isStdin) (text : String)
    (file? : String → Option ByteArray) : Inputs.text ⟨text.toUTF8, file?⟩ source = .ok text := by
  have hutf8 : String.fromUTF8? text.toUTF8 = some text := by
    rw [String.fromUTF8?, String.toUTF8_eq_toByteArray, dif_pos text.isValidUTF8]
    rfl
  simp only [Inputs.text, Inputs.bytes?, if_pos h, hutf8]

theorem Inputs.tree_printed {t : Template} {source : Source} (h : inputs.text source = .ok t.printed) :
    inputs.tree source = if t.levels ≤ Json.maxDepth then .ok t.toJson
      else .error (.io ("failed to parse " ++ source.path ++ " as JSON")) := by
  have hread := ofText?_printed t
  rw [Inputs.tree, h]
  by_cases hlevels : t.levels ≤ Json.maxDepth
  · rw [if_pos hlevels] at hread ⊢
    simp only [bind, Except.bind, hread]
    rfl
  · rw [if_neg hlevels] at hread ⊢
    simp only [bind, Except.bind, hread]

/-- A printed template is reported on as the template is, or as a file that is not JSON. -/
theorem run_evaluate_printed {t : Template} {source : Source} {env : Option EnvironmentInput} {table : Table}
    {formatName : String} (hsingle : singleStdin "AST" (some source) env = .ok ())
    (htext : inputs.text source = .ok t.printed) (htable : inputs.table env = .ok table) (verbose : Bool) :
    run inputs verbose (.evaluate source env formatName) =
      if t.levels ≤ Json.maxDepth then reportOutcome verbose formatName (logLoaded table env) (evaluate table.environment t)
      else .ofResult [] (.error (.io ("failed to parse " ++ source.path ++ " as JSON"))) := by
  have htree := Inputs.tree_printed htext
  rw [run, hsingle, htable]
  by_cases hlevels : t.levels ≤ Json.maxDepth
  · rw [if_pos hlevels] at htree ⊢
    rw [htree]
    exact congrArg (reportOutcome verbose formatName (logLoaded table env)) (evaluateJson_toJson table.environment t)
  · rw [if_neg hlevels] at htree ⊢
    rw [htree]
    rfl

end Cli

/-- **What becomes of a template that is parsed and printed**: it evaluates to what it renders as, as long as no
more arrays and objects are open in the text than may be; with one more the text is refused. -/
theorem result_of_printed (env : Environment) (inputs : Cli.Inputs) (verbose : Bool) (source : String) :
    (Json.ofText? (Cli.run inputs verbose (.parse (.inline source))).output).map
        (fun tree => (evaluateJson env tree).result) =
      if (Template.parse source).levels ≤ Json.maxDepth then some (render env source).result else none := by
  rw [Cli.output_run_parse, ofText?_printed]
  split
  · rw [Option.map_some, evaluateJson_toJson, result_render]
  · rfl

/-! ## Trees that are refused -/

/-- A block that is all of a template. -/
theorem Template.parse_block {inner : List Char} {e : Expr} (hinner : Piece.Encloses inner)
    (hparse : Expr.parse inner = .ok e) :
    parse (String.ofList (Piece.openBraces ++ inner ++ Piece.closeBraces)) = .single e := by
  have hparts : parts (Piece.openBraces ++ inner ++ Piece.closeBraces) = [Part.ofBlock [] inner] := by
    have hlayout := Piece.Layout.parts_source
      ⟨[⟨[], inner, by decide, hinner⟩], [], Piece.blockless_of_not_opens (by decide)⟩
    rwa [Piece.Layout.source, List.append_nil, List.flatMap_singleton] at hlayout
  rw [parse, parseWithWarnings, String.toList_ofList, hparts, Part.ofBlock, Part.ofPiece, Expr.parseAt_eq_mapError,
    hparse]
  rfl

/-- `1 + 1 + ... + 1` with `n` operators. -/
def Expr.ones : (n : Nat) → Expr
  | 0 => .number 1
  | n + 1 => .binary .add (ones n) (.number 1)

/-- The template that is such a sum and nothing else. -/
def onesSource (n : Nat) : String := String.ofList (Piece.openBraces ++ (Expr.ones n).print ++ Piece.closeBraces)

namespace Expr

theorem operatorCount_ones (n : Nat) : (ones n).operatorCount = n := by
  induction n with
  | zero => rfl
  | succ n ih => rw [ones, operatorCount, ih]; rfl

theorem levels_ones (n : Nat) : (ones n).levels = n := by
  induction n with
  | zero => rfl
  | succ n ih => rw [ones, levels, ih]; exact congrArg (· + 1) (Nat.max_zero n)

theorem references_ones (n : Nat) : (ones n).references = [] := by
  induction n with
  | zero => rfl
  | succ n ih => rw [ones, references, ih]; rfl

/-- A sum needs no parentheses to its left. -/
theorem leftNeedsParens_ones (n : Nat) : (ones n).leftNeedsParens .add = false := by
  cases n <;> rfl

theorem parenDepth_ones (n : Nat) : (ones n).parenDepth = 0 := by
  induction n with
  | zero => rfl
  | succ n ih => rw [ones, parenDepth, ih, leftNeedsParens_ones]; rfl

theorem expr_ones (env : Environment) (n : Nat) (trace : Trace) :
    ∃ x, Evaluation.expr env (ones n) trace = .ok (.number x) trace := by
  induction n with
  | zero => exact ⟨_, rfl⟩
  | succ n ih =>
    obtain ⟨x, hx⟩ := ih
    have hrun : EStateM.run (Evaluation.expr env (ones n)) trace = .ok (.number x) trace := hx
    refine ⟨x + Float.ofInt (1 : Int64).toInt, ?_⟩
    rw [ones, Evaluation.expr]
    change EStateM.run (_ >>= _) trace = _
    rw [EStateM.run_bind, hrun]
    rfl

end Expr

/-- Up to the limit of operators the parser makes such a sum. -/
theorem parse_onesSource {n : Nat} (hn : n ≤ Expr.maxOperators) :
    Template.parse (onesSource n) = .single (Expr.ones n) := by
  have hrefs : ∀ r ∈ (Expr.ones n).references, r.defect? = none := by simp [Expr.references_ones]
  have hparse : Expr.parse (Expr.ones n).print = .ok (Expr.ones n) :=
    Expr.parseAt_print hrefs (by rwa [Expr.operatorCount_ones]) (by rw [Expr.parenDepth_ones]; omega) _
  exact Template.parse_block (Expr.clean_print _ hrefs).encloses hparse

/-- A sum of 128 operators is rendered, and refused once it is printed. -/
theorem refused_onesSource :
    (Cli.run ⟨.empty, fun _ => none⟩ false (.render (.inline (onesSource 128)) none "text")).status = .success ∧
    (Cli.run ⟨(Cli.run ⟨.empty, fun _ => none⟩ false (.parse (.inline (onesSource 128)))).output.toUTF8,
      fun _ => none⟩ false (.evaluate ⟨"-"⟩ none "text")).status = .io := by
  have hparse := parse_onesSource (n := 128) (by decide)
  constructor
  · obtain ⟨x, hx⟩ := Expr.expr_ones Table.empty.environment 128 .start
    have hresult : (render Table.empty.environment (onesSource 128)).result = .ok (.number x) := by
      rw [result_render, hparse, evaluate, Evaluation.template, Evaluation.run, hx]
    rw [Cli.run_render_inline, Cli.reportOutcome, hresult]
    rfl
  · have hlevels : ¬ (Template.parse (onesSource 128)).levels ≤ Json.maxDepth := by
      rw [hparse, Template.levels, Expr.levels_ones]
      decide
    rw [Cli.output_run_parse, Cli.run_evaluate_printed rfl (Cli.Inputs.text_stdin rfl _ _) rfl, if_neg hlevels]
    rfl

end PropertyExpr
