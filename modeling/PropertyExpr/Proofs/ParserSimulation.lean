import PropertyExpr.Proofs.ParserOutcome
/-!
# The parser in other monads

The parts of the parser are written for any monad that its operations run in. What such a run has to do with one of the
parser itself is said by a relation from a state on. If the relation holds of the operations, and is kept by one thing
after the other and by closing a level (`Simulation`), then it holds of every part of the parser, up to
`Simulation.expression`.

Only the states that an operation leads to are looked at behind it, so a part may run as the parser does under
conditions on where it starts: inside a level (`Simulation.factor`), or while operators are left (`Simulation.link`).
-/
namespace PropertyExpr.Expr.Parser

/-- The operations of the parser. A level is closed by `nested` alone, which does so however what is inside ends. -/
inductive Operation (tokens : Array Token) : {α : Type} → Parser α → Prop where
  | current : Operation tokens (current tokens)
  | advance : Operation tokens (advance tokens)
  | expect {kind : Token.Kind} (h : kind ≠ .blockEnd) : Operation tokens (expect tokens kind)
  | identifier (expected : String) : Operation tokens (identifier tokens expected)
  | previousLocation? : Operation tokens (previousLocation? tokens)
  | enter : Operation tokens (enter tokens)
  | charge (location : Location) : Operation tokens (charge location)
  | refuse {α : Type} (cause : SyntaxError.Cause) (location : Location) :
      Operation tokens (refuse cause location : Parser α)
  | unexpected {α : Type} (expected : String) : Operation tokens (unexpected tokens expected : Parser α)
  | breakOff {α : Type} (cause : SyntaxError.Cause) (start : Location) :
      Operation tokens (breakOff cause start : Parser α)

/-- `R s r p` can be shown of `r` running from `s` on as the parser's `p` does. -/
structure Simulation (tokens : Array Token) (m : Type → Type) [Monad m] [MonadLiftT Parser m] [MonadFinally m]
    (R : {α : Type} → Progress → m α → Parser α → Prop) : Prop where
  pure {α : Type} (s : Progress) (a : α) : R s (pure a) (pure a)
  bind {α β : Type} {s : Progress} {r : m α} {p : Parser α} {f : α → m β} {g : α → Parser β} (h : R s r p)
    (hf : ∀ a t, p.run s = .ok a t → R t (f a) (g a)) : R s (r >>= f) (p >>= g)
  operation {α : Type} {p : Parser α} (s : Progress) (h : Operation tokens p) : R s (liftM p) p
  finally_leave {α : Type} {s : Progress} {r : m α} {p : Parser α} (h : R s r p) :
    R s (tryFinally r (liftM leave : m Unit)) (tryFinally p leave)

namespace Simulation

variable {tokens : Array Token} {m : Type → Type} [Monad m] [MonadLiftT Parser m] [MonadFinally m]
  {R : {α : Type} → Progress → m α → Parser α → Prop} (sim : Simulation tokens m R) {α β : Type} {s : Progress}

include sim

/-! ## Operations -/

theorem bind_operation {p : Parser α} {f : α → m β} {g : α → Parser β} (h : Operation tokens p)
    (hf : ∀ a t, p.run s = .ok a t → R t (f a) (g a)) : R s (liftM p >>= f) (liftM p >>= g) :=
  sim.bind (sim.operation s h) hf

theorem bind_current {f : Token → m β} {g : Token → Parser β}
    (h : R s (f (tokenAt tokens s.position)) (g (tokenAt tokens s.position))) :
    R s (liftM (current tokens) >>= f) (liftM (current tokens) >>= g) := by
  refine sim.bind_operation .current fun a t hrun => ?_
  cases hrun
  exact h

theorem bind_advance {f : Unit → m β} {g : Unit → Parser β} (hk : kindAt tokens s.position ≠ .blockEnd)
    (h : R { s with position := s.position + 1 } (f ()) (g ())) :
    R s (liftM (advance tokens) >>= f) (liftM (advance tokens) >>= g) := by
  refine sim.bind_operation .advance fun a t hrun => ?_
  cases (run_advance hk).symm.trans hrun
  exact h

theorem refuse (cause : SyntaxError.Cause) (location : Location) :
    R s (liftM (refuse cause location : Parser α)) (liftM (refuse cause location : Parser α)) :=
  sim.operation s (.refuse cause location)

theorem unexpected (expected : String) :
    R s (liftM (unexpected tokens expected : Parser α)) (liftM (unexpected tokens expected : Parser α)) :=
  sim.operation s (.unexpected expected)

/-! ## Factors -/

/-- Past the limit nothing is read. -/
theorem nested {r : m α} {p : Parser α} (h : s.depth < maxDepth → R { s with depth := s.depth + 1 } r p) :
    R s (nested tokens r) (nested tokens p) := by
  refine sim.bind_operation .enter fun _ t henter => ?_
  rw [run_enter] at henter
  by_cases hd : s.depth < maxDepth
  · rw [if_pos hd] at henter
    cases henter
    exact sim.finally_leave (h hd)
  · rw [if_neg hd] at henter
    cases henter

theorem referenceTail (s : Progress) (name : String) : R s (referenceTail tokens name) (referenceTail tokens name) := by
  refine sim.bind_operation (.expect (by simp)) fun _ s _ => sim.bind_operation .current fun token s _ => ?_
  extract_lets rest rest'
  have hrest (rank : Int64) (s : Progress) : R s (rest rank) (rest' rank) := by
    refine sim.bind_operation .advance fun _ s _ => sim.bind_operation (.expect (by simp)) fun _ s _ => ?_
    refine sim.bind_operation (.expect (by simp)) fun _ s _ => sim.bind_operation (.identifier _) fun _ s _ => ?_
    exact sim.pure s _
  cases token.kind with
  | integer n =>
    by_cases hz : n = 0
    · simp only [if_pos hz]
      exact sim.bind (sim.refuse _ _) fun rank s _ => hrest rank s
    simp only [if_neg hz]
    cases Number.int64? n.toNat with
    | some rank => exact sim.bind (sim.pure s rank) fun rank s _ => hrest rank s
    | none => exact sim.bind (sim.refuse _ _) fun rank s _ => hrest rank s
  | _ => exact sim.bind (sim.unexpected _) fun rank s _ => hrest rank s

section
variable {sum operand : m Expr} {sum' operand' : Parser Expr}

theorem primary (h : s.depth < maxDepth → R ⟨s.position + 1, s.depth + 1, s.operators⟩ sum sum') :
    R s (primary tokens sum) (primary tokens sum') := by
  refine sim.bind_current ?_
  cases hk : (tokenAt tokens s.position).kind with
  | integer n =>
    simp only
    cases Number.int64? n.toNat with
    | some value => exact sim.bind_operation .advance fun _ s _ => sim.pure s _
    | none => exact sim.refuse _ _
  | string text => exact sim.bind_operation .advance fun _ s _ => sim.pure s _
  | ident name => exact sim.bind_operation .advance fun _ s _ => sim.referenceTail s name
  | leftParen =>
    refine sim.bind_advance (by simp [kindAt, hk]) (sim.bind (sim.nested h) fun e s _ => ?_)
    exact sim.bind_operation (.expect (by simp)) fun _ s _ => sim.pure s e
  | _ => exact sim.unexpected _

theorem negation (h : s.depth < maxDepth → R { s with depth := s.depth + 1 } operand operand') (sign : Location) :
    R s (negation tokens operand sign) (negation tokens operand' sign) := by
  refine sim.bind_current ?_
  cases (tokenAt tokens s.position).kind with
  | integer n =>
    refine sim.bind_operation .advance fun _ s _ => ?_
    cases Number.int64? (-n.toNat) with
    | some value => exact sim.pure s _
    | none => exact sim.refuse _ _
  | _ =>
    refine sim.bind (sim.nested h) fun e s _ => ?_
    cases e with
    | number n =>
      simp only
      cases Number.int64? (-n.toInt) with
      | some value => exact sim.pure s _
      | none =>
        refine sim.bind_operation .previousLocation? fun last? s _ => ?_
        cases last? with
        | some last => exact sim.refuse _ _
        | none => exact sim.operation s (.breakOff _ _)
    | _ => exact sim.bind_operation (.charge sign) fun _ s _ => sim.pure s _

/-- What nests in a factor is read one level deeper. -/
theorem factor (hsum : s.depth < maxDepth → R ⟨s.position + 1, s.depth + 1, s.operators⟩ sum sum')
    (hoperand : s.depth < maxDepth → R ⟨s.position + 1, s.depth + 1, s.operators⟩ operand operand') :
    R s (factor tokens sum operand) (factor tokens sum' operand') := by
  refine sim.bind_current ?_
  by_cases hminus : (tokenAt tokens s.position).kind = .minus
  · simp only [if_pos hminus]
    exact sim.bind_advance (by simp [kindAt, hminus]) (sim.negation hoperand _)
  · simp only [if_neg hminus]
    exact sim.primary hsum

end

/-! ## Chains -/

section
variable {operand : m Expr} {operand' : Parser Expr}

/-- A turn of a chain charges an operator, and only then the chain goes on. -/
theorem link {tier : Tier} {others : Location → Expr → m Expr} {others' : Location → Expr → Parser Expr} {left : Expr}
    (hoperand : R { s with position := s.position + 1 } operand operand')
    (hothers : ∀ e right t, operand'.run { s with position := s.position + 1 } = .ok right t →
      t.operators < maxOperators → R { t with operators := t.operators + 1 }
        (others (locationAt tokens s.position) e) (others' (locationAt tokens s.position) e)) :
    R s (link tokens (operator? tier) operand others left) (link tokens (operator? tier) operand' others' left) := by
  refine sim.bind_current ?_
  cases htable : operator? tier (tokenAt tokens s.position).kind with
  | none => exact sim.pure s left
  | some op =>
    have hk : kindAt tokens s.position ≠ .blockEnd := (operator?_eq_some_iff.1 htable).ne_blockEnd
    refine sim.bind_advance hk (sim.bind hoperand fun right t hright => ?_)
    refine sim.bind_operation (.charge _) fun _ u hcharge => ?_
    rw [run_charge] at hcharge
    split at hcharge
    · rename_i hfew
      cases hcharge
      exact hothers _ right t hright hfew
    · cases hcharge

theorem chain (tier : Tier) (h : ∀ s, R s operand operand') (allowance : Nat) (s : Progress) (left : Expr) :
    R s (chain tokens (operator? tier) operand allowance left)
      (chain tokens (operator? tier) operand' allowance left) := by
  induction allowance generalizing s left with
  | zero => exact sim.link (h _) fun _ _ _ _ _ => sim.refuse _ _
  | succ allowance ih => exact sim.link (h _) fun e _ _ _ _ => ih _ e

theorem product (h : ∀ s, R s operand operand') (s : Progress) :
    R s (product tokens operand) (product tokens operand') :=
  sim.bind (h s) fun left s _ => sim.chain .product h maxOperators s left

theorem sum (h : ∀ s, R s operand operand') (s : Progress) : R s (sum tokens operand) (sum tokens operand') :=
  sim.bind (sim.product h s) fun left s _ => sim.chain .sum (sim.product h) maxOperators s left

end

/-! ## The whole parser -/

theorem factorAt (room : Nat) (s : Progress) : R s (factorAt tokens room) (factorAt tokens room) := by
  induction room generalizing s with
  | zero =>
    have hfull (s : Progress) : R s (factorAt.full tokens) (factorAt.full tokens) :=
      sim.bind_current (sim.refuse _ _)
    exact sim.factor (fun _ => sim.sum hfull _) fun _ => hfull _
  | succ room ih => exact sim.factor (fun _ => sim.sum ih _) fun _ => ih _

theorem whole {sum : m Expr} {sum' : Parser Expr} (h : R s sum sum') : R s (whole tokens sum) (whole tokens sum') := by
  refine sim.bind h fun e s _ => sim.bind_operation .current fun token s _ => ?_
  by_cases hend : token.kind = .blockEnd
  · simp only [if_pos hend]
    exact sim.pure s e
  · simp only [if_neg hend]
    exact sim.unexpected _

/-- **The parser in another monad runs as the parser does**, in whatever sense its operations do. -/
theorem expression (s : Progress) : R s (expression tokens) (expression tokens) :=
  sim.whole (sim.sum (sim.factorAt maxDepth) s)

end Simulation

end PropertyExpr.Expr.Parser
