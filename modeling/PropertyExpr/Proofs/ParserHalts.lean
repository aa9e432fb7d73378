import PropertyExpr.Proofs.ParserOverrun
import PropertyExpr.Proofs.ParserSimulation
/-!
# The parser without bounds on its recursion

`Parser` recurses on the levels and the operators still allowed, so that it ends is part of its definition. Here its
parts call each other without either bound: loops go on as long as operators follow, and factors nest as deep as the
tokens say. What they get instead is a stack, for as many tiers and turns of loops as may be open at once. Where it is
used up there is no result, and where the recursion does not come to an end no stack is enough.

`unbounded_parse_eq_some` names a stack that is enough for every row of tokens: with it, or a larger one, the result is
that of the parser. Positions give no measure, because behind the row its last token is read for ever. What ends the
recursion are the checks: each level is entered before anything is read in it, and each operator is charged before the
loop goes on.
-/
namespace PropertyExpr.Expr.Parser

namespace Unbounded

/-- A run that may not end. It fails with `()` where its stack is used up. -/
abbrev Run := ExceptT Unit Parser

section
variable (tokens : Array Token)

mutual

/-- Reads a tier, however deep it nests. -/
def read : (stack : Nat) → Tier → Run Expr
  | 0, _ => throw ()
  | stack + 1, .factor => factor tokens (read stack .sum) (read stack .factor)
  | stack + 1, .product => do goOn stack .product .factor (← read stack .factor)
  | stack + 1, .sum => do goOn stack .sum .product (← read stack .product)

/-- Goes on behind `left` for as long as an operator follows. -/
def goOn : (stack : Nat) → (tier below : Tier) → (left : Expr) → Run Expr
  | 0, _, _, _ => throw ()
  | stack + 1, tier, below, left =>
    link tokens (operator? tier) (read stack below) (fun _ => goOn stack tier below) left

end

/-- One expression that all tokens up to the end token belong to. -/
def expression (stack : Nat) : Run Expr := whole tokens (read tokens stack .sum)

end

/-! ## Runs that end -/

/-- How a run ends that ends as one of the parser does. -/
def ending {α : Type} : EStateM.Result Stop Progress α → EStateM.Result Stop Progress (Except Unit α)
  | .ok a t => .ok (.ok a) t
  | .error stop t => .error stop t

/-- From `s` on the run ends as the part `p` of the parser does. -/
def EndsAs {α : Type} (s : Progress) (r : Run α) (p : Parser α) : Prop := EStateM.run r.run s = ending (p.run s)

section
variable {α β : Type} {tokens : Array Token} {s : Progress} {r : Run α} {p : Parser α}

theorem endsAs_lift (s : Progress) (p : Parser α) : EndsAs s (liftM p) p := by
  have hlift : EStateM.run (liftM p : Run α).run s = EStateM.map Except.ok p s := rfl
  rw [EndsAs, hlift, EStateM.map, EStateM.run]
  cases p s <;> rfl

theorem EndsAs.bind {f : α → Run β} {g : α → Parser β} (h : EndsAs s r p)
    (hf : ∀ a t, p.run s = .ok a t → EndsAs t (f a) (g a)) : EndsAs s (r >>= f) (p >>= g) := by
  rw [EndsAs, ExceptT.run_bind, EStateM.run_bind, EStateM.run_bind, h]
  cases hp : p.run s with
  | error stop t => rfl
  | ok a t => exact hf a t hp

theorem run_finally_liftM_leave (r : Run α) (s : Progress) :
    EStateM.run (tryFinally r (liftM leave : Run Unit)).run s = match EStateM.run r.run s with
      | .ok a t => .ok a { t with depth := t.depth - 1 }
      | .error stop t => .error stop { t with depth := t.depth - 1 } := by
  change EStateM.bind (EStateM.bind (tryFinally' r.run _) _) _ s = _
  simp only [EStateM.bind, tryFinally', EStateM.run]
  cases r.run s with
  | error stop t => rfl
  | ok a t => cases a <;> rfl

theorem EndsAs.finally_leave (h : EndsAs s r p) :
    EndsAs s (tryFinally r (liftM leave : Run Unit)) (tryFinally p leave) := by
  rw [EndsAs, run_finally_liftM_leave, run_finally_leave, h]
  cases p.run s <;> rfl

/-- What ends as the parser does simulates it. -/
theorem simulation : Simulation tokens Run EndsAs where
  pure _ _ := rfl
  bind := EndsAs.bind
  operation s _ := endsAs_lift s _
  finally_leave := EndsAs.finally_leave

end

/-! ## Levels and loops -/

/-- A stack for a tier that is read with `room` levels left. One level takes two loops and the tiers between them. -/
def stackFor (room : Nat) : Tier → Nat
  | .factor => room * (2 * maxOperators + 5) + 1
  | .product => room * (2 * maxOperators + 5) + maxOperators + 3
  | .sum => (room + 1) * (2 * maxOperators + 5)

section
variable {tokens : Array Token} {tier below : Tier} {room : Nat} {s : Progress}

/-- With `room` levels left the tier ends as the parser's does, whatever more there is on the stack. -/
def TierEnds (tokens : Array Token) (room : Nat) (tier : Tier) : Prop :=
  ∀ (stack : Nat) (s : Progress), stackFor room tier ≤ stack → s.depth + room = maxDepth →
    EndsAs s (read tokens stack tier) (runAt tokens tier room)

/-- An operand is read on its own level, and no operator is given back. -/
theorem progress_of_run {e : Expr} {t : Progress} (hs : s.depth + room = maxDepth)
    (h : (runAt tokens tier room).run s = .ok e t) : t.depth = s.depth ∧ s.operators ≤ t.operators := by
  have houtcome := outcome tokens room tier s hs
  rw [h] at houtcome
  obtain ⟨ks, -, -, -, -, rfl⟩ := houtcome
  exact ⟨rfl, Nat.le_add_right _ _⟩

/-- Each turn of a loop charges an operator, so no turn is left to do when the allowance is used up. -/
theorem endsAs_goOn (hoperand : TierEnds tokens room below) (allowance : Nat) (left : Expr) {stack : Nat}
    (hstack : stackFor room below + allowance < stack) (hs : s.depth + room = maxDepth)
    (enough : maxOperators ≤ allowance + s.operators) :
    EndsAs s (goOn tokens stack tier below left)
      (chain tokens (operator? tier) (runAt tokens below room) allowance left) := by
  induction allowance generalizing stack s left with
  | zero =>
    obtain ⟨stack, rfl⟩ := Nat.exists_eq_add_one_of_ne_zero (Nat.ne_of_gt (Nat.zero_lt_of_lt hstack))
    rw [goOn, chain]
    refine simulation.link (hoperand stack _ (by omega) hs) fun e right t hright hfew => ?_
    exfalso
    have hbuilt : s.operators ≤ t.operators := (progress_of_run (s := { s with position := s.position + 1 }) hs hright).2
    omega
  | succ allowance ih =>
    obtain ⟨stack, rfl⟩ := Nat.exists_eq_add_one_of_ne_zero (Nat.ne_of_gt (Nat.zero_lt_of_lt hstack))
    rw [goOn, chain]
    refine simulation.link (hoperand stack _ (by omega) hs) fun e right t hright hfew => ?_
    obtain ⟨hdepth, hbuilt⟩ : t.depth = s.depth ∧ s.operators ≤ t.operators :=
      progress_of_run (s := { s with position := s.position + 1 }) hs hright
    exact ih e (by omega) (by simp only; omega) (by simp only; omega)

/-- A chain ends when its operands do. -/
theorem endsAs_operands (above : tier.Over below) {stack : Nat}
    (hread : read tokens (stack + 1) tier = read tokens stack below >>= goOn tokens stack tier below)
    (hoperand : TierEnds tokens room below) (hstack : stackFor room below + maxOperators < stack)
    (hs : s.depth + room = maxDepth) : EndsAs s (read tokens (stack + 1) tier) (runAt tokens tier room) := by
  rw [hread, runAt_eq_chain above]
  refine (hoperand stack s (by omega) hs).bind fun left t hleft => ?_
  have hdepth := (progress_of_run hs hleft).1
  exact endsAs_goOn hoperand maxOperators left hstack (hdepth ▸ hs) (by omega)

/-- One level ends when the levels inside it do. -/
theorem tierEnds_level (hinner : ∀ r, room = r + 1 → ∀ tier, TierEnds tokens r tier) (tier : Tier) :
    TierEnds tokens room tier := by
  have hfactor : TierEnds tokens room .factor := by
    intro stack s hstack hs
    obtain ⟨stack, rfl⟩ := Nat.exists_eq_add_of_le' (Nat.le_trans (Nat.le_add_left 1 _) hstack)
    rw [read]
    cases room with
    | zero =>
      rw [runAt_factor]
      exact simulation.factor (fun hd => by omega) (fun hd => by omega)
    | succ room =>
      have hsum : stackFor room .sum ≤ stack := Nat.le_of_add_le_add_right hstack
      have hsign : stackFor room .factor ≤ stackFor room .sum := by
        rw [stackFor, stackFor, Nat.succ_mul room]
        omega
      rw [runAt_factor_succ]
      exact simulation.factor (fun _ => hinner room rfl .sum stack _ hsum (by simp only; omega))
        (fun _ => hinner room rfl .factor stack _ (Nat.le_trans hsign hsum) (by simp only; omega))
  have hproduct : TierEnds tokens room .product := by
    intro stack s hstack hs
    rw [stackFor] at hstack
    obtain ⟨stack, rfl⟩ := Nat.exists_eq_add_one_of_ne_zero (show stack ≠ 0 by omega)
    refine endsAs_operands .product (read.eq_3 tokens stack) hfactor ?_ hs
    rw [stackFor]
    omega
  cases tier with
  | factor => exact hfactor
  | product => exact hproduct
  | sum =>
    intro stack s hstack hs
    rw [stackFor, Nat.succ_mul room] at hstack
    obtain ⟨stack, rfl⟩ := Nat.exists_eq_add_one_of_ne_zero (show stack ≠ 0 by omega)
    refine endsAs_operands .sum (read.eq_4 tokens stack) hproduct ?_ hs
    rw [stackFor]
    omega

theorem tierEnds (tokens : Array Token) (room : Nat) (tier : Tier) : TierEnds tokens room tier := by
  induction room generalizing tier with
  | zero => exact tierEnds_level (by simp) tier
  | succ room ih => exact tierEnds_level (by rintro r ⟨⟩; exact ih) tier

/-- A call ends when its sum does. -/
theorem endsAs_expression {stack : Nat} (hstack : stackFor maxDepth .sum ≤ stack) (hs : s.depth = 0) :
    EndsAs s (expression tokens stack) (Parser.expression tokens) :=
  simulation.whole (tierEnds tokens maxDepth .sum stack s hstack (by omega))

end

/-- One call over `tokens` from `s`, if the stack is enough for it. -/
def parse? (stack : Nat) (tokens : Array Token) (s : Progress) : Option (Except Stop Expr × Progress) :=
  match (expression tokens stack).run s with
  | .ok (.ok e) t => some (.ok e, t)
  | .ok (.error ()) _ => none
  | .error stop t => some (.error stop, t)

end Unbounded

/-- **Every call ends**, the first on a parser or any later one, whatever the row is and whether or not it has an end
token. Nothing bounds the recursion, but one stack is enough for all rows, and what comes out is the parser's result. -/
theorem unbounded_parse_eq_some (tokens : Array Token) (calls more : Nat) :
    Unbounded.parse? (Unbounded.stackFor maxDepth .sum + more) tokens (progressAfter tokens calls) =
      some (parse tokens (progressAfter tokens calls)) := by
  have hends : Unbounded.EndsAs (progressAfter tokens calls) (Unbounded.expression tokens _) (expression tokens) :=
    Unbounded.endsAs_expression (Nat.le_add_right _ more) (depth_progressAfter tokens calls)
  rw [Unbounded.EndsAs, EStateM.run] at hends
  rw [Unbounded.parse?, hends, parse_eq]
  cases (expression tokens : Parser Expr).run (progressAfter tokens calls) <;> rfl

end PropertyExpr.Expr.Parser
