import PropertyExpr.Proofs.Grammar
/-!
# What the parts of the parser do

One equation for each part of the parser that reads or counts: what it returns, why it stops, and where it leaves
the parser.
-/
namespace PropertyExpr.Expr.Parser

variable {tokens : Array Token} {s : Progress}

/-! ## Stops -/

/-- What is said besides when the token at `position` should not be there. -/
def hintAt (tokens : Array Token) (position : Nat) : String :=
  match kindAt tokens position with
  | .ident _ => if 0 < position then "references look like name[rank].field" else "check syntax"
  | .blockEnd => "the expression is incomplete"
  | _ => "check syntax"

/-- The stop that marks the token at `position`. -/
def stopAt (tokens : Array Token) (cause : SyntaxError.Cause) (position : Nat) : Stop :=
  .refused (.mark cause (locationAt tokens position))

/-- The stop for a token where `expected` should stand. -/
def unexpectedAt (tokens : Array Token) (expected : String) (position : Nat) : Stop :=
  stopAt tokens (.unexpectedToken expected (kindAt tokens position).display (hintAt tokens position)) position

/-- The stop for the integer `text` being out of range. -/
def overflowAt (tokens : Array Token) (text : String) (position : Nat) : Stop :=
  stopAt tokens (.integerOverflow text) position

/-- The place of the token before `position`, if there is one. -/
def previousAt (tokens : Array Token) (position : Nat) : Option Location :=
  if position = 0 then some (locationAt tokens position) else tokens[position - 1]?.map Token.location

/-- The stop for a sign at `position` and the least integer, which ends before `stop`. -/
def negationOverflow (tokens : Array Token) (position stop : Nat) : Stop :=
  let cause := .integerOverflow ("-(" ++ toString Int64.minValue.toInt ++ ")")
  match previousAt tokens stop with
  | some last => .refused (.mark cause ((locationAt tokens position).spanTo last))
  | none => .overrun cause (locationAt tokens position)

/-! ## Runs -/

/-- An operation of the parser is run as it is. -/
theorem liftM_operation {α : Type} (p : Parser α) : (liftM p : Parser α) = p := rfl

theorem run_bind_ok {α β : Type} {p : Parser α} {f : α → Parser β} {t : Progress} {a : α}
    (h : p.run s = .ok a t) : (p >>= f).run s = (f a).run t := by
  rw [EStateM.run_bind, h]

theorem run_lift_bind_ok {α β : Type} {p : Parser α} {f : α → Parser β} {t : Progress} {a : α}
    (h : p.run s = .ok a t) : ((liftM p : Parser α) >>= f).run s = (f a).run t :=
  run_bind_ok h

theorem run_bind_error {α β : Type} {p : Parser α} {f : α → Parser β} {t : Progress} {stop : Stop}
    (h : p.run s = .error stop t) : (p >>= f).run s = .error stop t := by
  rw [EStateM.run_bind, h]

theorem run_ite {α : Type} (c : Prop) [Decidable c] (p q : Parser α) (s : Progress) :
    (if c then p else q).run s = if c then p.run s else q.run s := by
  split <;> rfl

theorem run_current : (current tokens).run s = .ok (tokenAt tokens s.position) s := rfl

theorem run_advance (h : kindAt tokens s.position ≠ .blockEnd) :
    (advance tokens).run s = .ok () { s with position := s.position + 1 } := by
  rw [advance, EStateM.run_bind, run_current]
  simp only [run_ite]
  exact if_pos h

theorem run_refuse {α : Type} (cause : SyntaxError.Cause) (position : Nat) :
    (refuse cause (tokenAt tokens position).location : Parser α).run s = .error (stopAt tokens cause position) s :=
  rfl

theorem run_unexpected {α : Type} (expected : String) :
    (unexpected tokens expected : Parser α).run s = .error (unexpectedAt tokens expected s.position) s := rfl

theorem run_expect {kind : Token.Kind} (hk : kind ≠ .blockEnd) :
    (expect tokens kind).run s =
      if kindAt tokens s.position = kind then .ok () { s with position := s.position + 1 }
      else .error (unexpectedAt tokens ("'" ++ kind.display ++ "'") s.position) s := by
  rw [expect, EStateM.run_bind, run_current]
  simp only [run_ite, run_unexpected]
  change (if kindAt tokens s.position = kind then _ else _) = _
  split
  · rename_i h
    exact run_advance (h ▸ hk)
  · rfl

theorem run_enter :
    (enter tokens).run s =
      if s.depth < maxDepth then .ok () { s with depth := s.depth + 1 }
      else .error (stopAt tokens tooDeep s.position) s := by
  rw [enter, EStateM.run_bind, EStateM.run_get]
  simp only [run_ite]
  rfl

theorem run_finally_leave {α : Type} (p : Parser α) (s : Progress) :
    (tryFinally p leave).run s = match p.run s with
      | .ok a t => .ok a { t with depth := t.depth - 1 }
      | .error stop t => .error stop { t with depth := t.depth - 1 } := by
  simp only [EStateM.run, tryFinally, tryFinally', Functor.map, EStateM.map]
  cases p s <;> rfl

theorem run_nested {α : Type} (p : Parser α) (h : s.depth < maxDepth) :
    (nested tokens p).run s = match p.run { s with depth := s.depth + 1 } with
      | .ok a t => .ok a { t with depth := t.depth - 1 }
      | .error stop t => .error stop { t with depth := t.depth - 1 } := by
  refine (run_bind_ok (run_enter.trans (if_pos h))).trans ?_
  exact run_finally_leave p _

theorem run_nested_full {α : Type} (p : Parser α) (h : s.depth = maxDepth) :
    (nested tokens p).run s = .error (stopAt tokens tooDeep s.position) s := by
  exact run_bind_error (run_enter.trans (if_neg (by omega)))

theorem run_charge (position : Nat) :
    (charge (tokenAt tokens position).location).run s =
      if s.operators < maxOperators then .ok () { s with operators := s.operators + 1 }
      else .error (stopAt tokens tooManyOperators position) { s with operators := s.operators + 1 } := by
  rw [charge, EStateM.run_bind, EStateM.run_modify]
  simp only [EStateM.run_bind, EStateM.run_get, run_ite, run_refuse]
  by_cases h : s.operators < maxOperators
  · rw [if_pos h, if_neg (by omega), EStateM.run_pure]
  · rw [if_neg h, if_pos (by omega)]

theorem run_previousLocation? :
    (previousLocation? tokens).run s = .ok (previousAt tokens s.position) s := by
  rw [previousLocation?, run_bind_ok (EStateM.run_get s), run_ite]
  simp only [previousAt]
  split
  · rfl
  · rfl

theorem run_identifier (expected : String) :
    (identifier tokens expected).run s = match kindAt tokens s.position with
      | .ident name => .ok name { s with position := s.position + 1 }
      | _ => .error (unexpectedAt tokens expected s.position) s := by
  rw [identifier, EStateM.run_bind, run_current]
  cases h : kindAt tokens s.position with
  | ident name =>
    have hk : kindAt tokens s.position ≠ .blockEnd := by simp [h]
    simp only [kindAt] at h
    simp only [h, EStateM.run_bind, run_advance hk, EStateM.run_pure]
  | _ =>
    simp only [kindAt] at h
    simp only [h, run_unexpected]

/-! ## Integers -/

theorem int64?_eq_none {n : Int} (h : Number.int64? n = none) :
    n < Int64.minValue.toInt ∨ Int64.maxValue.toInt < n := by
  simp only [Number.int64?, ite_eq_right_iff, reduceCtorEq, imp_false] at h
  omega

/-- Only the least integer has no negative. -/
theorem eq_minValue_of_neg {i : Int64} (h : Number.int64? (-i.toInt) = none) : i = Int64.minValue := by
  have lower := i.le_toInt
  have upper := i.toInt_lt
  refine Int64.toInt_inj.1 ?_
  rcases int64?_eq_none h with h | h <;> simp only [Int64.toInt_minValue, Int64.toInt_maxValue] at h ⊢ <;> omega

/-! ## Factors

One equation for each kind of token that a factor may start with. -/

section
variable {sum operand : Parser Expr}

theorem run_factor : (factor tokens sum operand).run s =
    if kindAt tokens s.position = .minus then
      (advance tokens >>= fun _ => negation tokens operand (locationAt tokens s.position)).run s
    else (primary tokens sum).run s := by
  rw [factor]
  rw [run_lift_bind_ok run_current, run_ite]
  rfl

theorem run_factor_integer {n : UInt64} (h : kindAt tokens s.position = .integer n) :
    (factor tokens sum operand).run s = match Number.int64? n.toNat with
      | some value => .ok (.number value) { s with position := s.position + 1 }
      | none => .error (overflowAt tokens (toString n.toNat) s.position) s := by
  rw [run_factor, if_neg (by simp [h]), primary]
  rw [run_lift_bind_ok run_current]
  have hk : (tokenAt tokens s.position).kind = .integer n := h
  simp only [hk]
  cases Number.int64? n.toNat with
  | none => exact run_refuse _ _
  | some value => exact run_bind_ok (run_advance (by simp [h]))

theorem run_factor_string {text : String} (h : kindAt tokens s.position = .string text) :
    (factor tokens sum operand).run s = .ok (.string text) { s with position := s.position + 1 } := by
  rw [run_factor, if_neg (by simp [h]), primary]
  rw [run_lift_bind_ok run_current]
  have hk : (tokenAt tokens s.position).kind = .string text := h
  simp only [hk]
  exact run_bind_ok (run_advance (by simp [h]))

theorem run_factor_ident {name : String} (h : kindAt tokens s.position = .ident name) :
    (factor tokens sum operand).run s = (referenceTail tokens name : Parser Expr).run { s with position := s.position + 1 } := by
  rw [run_factor, if_neg (by simp [h]), primary]
  rw [run_lift_bind_ok run_current]
  have hk : (tokenAt tokens s.position).kind = .ident name := h
  simp only [hk]
  exact run_bind_ok (run_advance (by simp [h]))

/-- A parenthesis opens a level for the sum behind it, and that sum must be closed. -/
theorem run_factor_leftParen (h : kindAt tokens s.position = .leftParen) (hd : s.depth < maxDepth) :
    (factor tokens sum operand).run s =
      match sum.run ⟨s.position + 1, s.depth + 1, s.operators⟩ with
      | .ok e t =>
        if kindAt tokens t.position = .rightParen then .ok e ⟨t.position + 1, t.depth - 1, t.operators⟩
        else .error (unexpectedAt tokens "')'" t.position) { t with depth := t.depth - 1 }
      | .error stop t => .error stop { t with depth := t.depth - 1 } := by
  rw [run_factor, if_neg (by simp [h]), primary]
  rw [run_lift_bind_ok run_current]
  have hk : (tokenAt tokens s.position).kind = .leftParen := h
  simp only [hk, liftM_operation]
  rw [run_bind_ok (run_advance (by simp [h])), EStateM.run_bind, run_nested _ (by exact hd)]
  cases sum.run ⟨s.position + 1, s.depth + 1, s.operators⟩ with
  | error stop t => rfl
  | ok e t =>
    simp only [EStateM.run_bind, run_expect (show Token.Kind.rightParen ≠ .blockEnd by simp)]
    by_cases hr : kindAt tokens t.position = .rightParen
    · simp only [if_pos hr, EStateM.run_pure]
    · simp only [if_neg hr]
      rfl

theorem run_factor_leftParen_full (h : kindAt tokens s.position = .leftParen) (hd : s.depth = maxDepth) :
    (factor tokens sum operand).run s =
      .error (stopAt tokens tooDeep (s.position + 1)) { s with position := s.position + 1 } := by
  rw [run_factor, if_neg (by simp [h]), primary]
  rw [run_lift_bind_ok run_current]
  have hk : (tokenAt tokens s.position).kind = .leftParen := h
  simp only [hk, liftM_operation]
  rw [run_bind_ok (run_advance (by simp [h]))]
  exact run_bind_error (run_nested_full _ hd)

/-- The kinds of tokens that no factor starts with. -/
def StartsNoFactor : Token.Kind → Prop
  | .minus | .integer _ | .string _ | .ident _ | .leftParen => False
  | _ => True

theorem run_factor_other (h : StartsNoFactor (kindAt tokens s.position)) :
    (factor tokens sum operand).run s =
      .error (unexpectedAt tokens "a number, string, reference or '('" s.position) s := by
  have hminus : kindAt tokens s.position ≠ .minus := by
    intro e
    rw [e] at h
    exact h
  rw [run_factor, if_neg hminus, primary]
  rw [run_lift_bind_ok run_current]
  cases hk : (tokenAt tokens s.position).kind with
  | minus => exact absurd hk hminus
  | integer | string | ident | leftParen =>
    rw [kindAt, hk] at h
    exact h.elim
  | _ => exact run_unexpected _

theorem run_factor_minus (h : kindAt tokens s.position = .minus) :
    (factor tokens sum operand).run s =
      (negation tokens operand (locationAt tokens s.position)).run { s with position := s.position + 1 } := by
  rw [run_factor, if_pos h, run_bind_ok (run_advance (by simp [h]))]

/-- A sign directly before an integer opens no level. -/
theorem run_factor_minus_integer {n : UInt64} (h : kindAt tokens s.position = .minus)
    (hn : kindAt tokens (s.position + 1) = .integer n) :
    (factor tokens sum operand).run s = match Number.int64? (-n.toNat) with
      | some value => .ok (.number value) { s with position := s.position + 2 }
      | none => .error (.refused (.mark (.integerOverflow ("-" ++ toString n.toNat))
          ((locationAt tokens s.position).spanTo (locationAt tokens (s.position + 1)))))
          { s with position := s.position + 2 } := by
  rw [run_factor_minus h, negation]
  simp only [liftM_operation]
  rw [run_bind_ok run_current]
  have hk : (tokenAt tokens (s.position + 1)).kind = .integer n := hn
  simp only [hk]
  rw [run_bind_ok (run_advance (by simp [hn]))]
  cases Number.int64? (-n.toNat) with
  | none => rfl
  | some value => rfl

/-- What becomes of the operand `e` behind the sign at `position`. -/
def negated (tokens : Array Token) (position : Nat) (e : Expr) (t : Progress) :
    EStateM.Result Stop Progress Expr :=
  match e with
  | .number n =>
    match Number.int64? (-n.toInt) with
    | some value => .ok (.number value) t
    | none => .error (negationOverflow tokens position t.position) t
  | e =>
    if t.operators < maxOperators then .ok (.binary .sub (.number 0) e) { t with operators := t.operators + 1 }
    else .error (stopAt tokens tooManyOperators position) { t with operators := t.operators + 1 }

/-- A sign before anything but a number is an operator. -/
theorem negated_of_ne_number {position : Nat} {e : Expr} (notNumber : ∀ n, e ≠ .number n) (t : Progress) :
    negated tokens position e t =
      if t.operators < maxOperators then .ok (.binary .sub (.number 0) e) { t with operators := t.operators + 1 }
      else .error (stopAt tokens tooManyOperators position) { t with operators := t.operators + 1 } := by
  cases e with
  | number n => exact absurd rfl (notNumber n)
  | _ => rfl

theorem run_factor_minus_other (h : kindAt tokens s.position = .minus)
    (hn : ∀ n, kindAt tokens (s.position + 1) ≠ .integer n) (hd : s.depth < maxDepth) :
    (factor tokens sum operand).run s =
      match operand.run ⟨s.position + 1, s.depth + 1, s.operators⟩ with
      | .ok e t => negated tokens s.position e { t with depth := t.depth - 1 }
      | .error stop t => .error stop { t with depth := t.depth - 1 } := by
  rw [run_factor_minus h, negation]
  simp only [liftM_operation]
  rw [run_bind_ok run_current]
  split
  · rename_i n hk
    exact absurd hk (hn n)
  rw [EStateM.run_bind, run_nested _ (by exact hd)]
  cases operand.run ⟨s.position + 1, s.depth + 1, s.operators⟩ with
  | error stop t => rfl
  | ok e t =>
    cases e with
    | number n =>
      cases hv : Number.int64? (-n.toInt) with
      | some value => simp [negated, hv]
      | none =>
        obtain rfl := eq_minValue_of_neg hv
        simp only [negated, negationOverflow, hv, run_bind_ok run_previousLocation?]
        cases previousAt tokens t.position with
        | some last => rfl
        | none => rfl
    | _ =>
      simp only [negated, EStateM.run_bind, locationAt, run_charge]
      by_cases ho : t.operators < maxOperators
      · simp only [if_pos ho, EStateM.run_pure]
      · simp only [if_neg ho]

theorem run_factor_minus_full (h : kindAt tokens s.position = .minus)
    (hn : ∀ n, kindAt tokens (s.position + 1) ≠ .integer n) (hd : s.depth = maxDepth) :
    (factor tokens sum operand).run s =
      .error (stopAt tokens tooDeep (s.position + 1)) { s with position := s.position + 1 } := by
  rw [run_factor_minus h, negation]
  simp only [liftM_operation]
  rw [run_bind_ok run_current]
  split
  · rename_i n hk
    exact absurd hk (hn n)
  · exact run_bind_error (run_nested_full _ hd)

end

/-! ## References -/

/-- What follows the name of a reference, from `position` on, stops the parser at `stop`. -/
inductive TailFails (tokens : Array Token) (position : Nat) : Stop → (stop : Nat) → Prop where
  | opening (h : kindAt tokens position ≠ .leftBracket) :
      TailFails tokens position (unexpectedAt tokens "'['" position) position
  | rank (h : Reads tokens position [.leftBracket]) (hr : ∀ n, kindAt tokens (position + 1) ≠ .integer n) :
      TailFails tokens position (unexpectedAt tokens "a rank" (position + 1)) (position + 1)
  | zero (h : Reads tokens position [.leftBracket, .integer 0]) :
      TailFails tokens position (stopAt tokens .invalidRank (position + 1)) (position + 1)
  | overflow {n : UInt64} (h : Reads tokens position [.leftBracket, .integer n])
      (nonzero : n ≠ 0) (hn : Number.int64? n.toNat = none) :
      TailFails tokens position (overflowAt tokens (toString n.toNat) (position + 1)) (position + 1)
  | closing {n : UInt64} {rank : Int64} (h : Reads tokens position [.leftBracket, .integer n])
      (nonzero : n ≠ 0) (value : Number.int64? n.toNat = some rank)
      (hk : kindAt tokens (position + 2) ≠ .rightBracket) :
      TailFails tokens position (unexpectedAt tokens "']'" (position + 2)) (position + 2)
  | dot {n : UInt64} {rank : Int64} (h : Reads tokens position [.leftBracket, .integer n, .rightBracket])
      (nonzero : n ≠ 0) (value : Number.int64? n.toNat = some rank) (hk : kindAt tokens (position + 3) ≠ .dot) :
      TailFails tokens position (unexpectedAt tokens "'.'" (position + 3)) (position + 3)
  | field {n : UInt64} {rank : Int64} (h : Reads tokens position [.leftBracket, .integer n, .rightBracket, .dot])
      (nonzero : n ≠ 0) (value : Number.int64? n.toNat = some rank)
      (hk : ∀ field, kindAt tokens (position + 4) ≠ .ident field) :
      TailFails tokens position (unexpectedAt tokens "a field name" (position + 4)) (position + 4)

/-- How reading the rest of the reference `name` ends. -/
def TailOutcome (tokens : Array Token) (name : String) (s : Progress) : EStateM.Result Stop Progress Expr → Prop
  | .ok e t => ∃ n rank field,
      Reads tokens s.position [.leftBracket, .integer n, .rightBracket, .dot, .ident field] ∧
      rank.toInt = (n.toNat : Int) ∧ 1 ≤ rank.toInt ∧ e = .ref ⟨name, rank, field⟩ ∧
      t = { s with position := s.position + 5 }
  | .error stop t => ∃ position, TailFails tokens s.position stop position ∧ t = { s with position }

/-- The part of a reference behind its rank, which stands at the position. -/
theorem tailOutcome_rank (name : String) {n : UInt64} {rank : Int64}
    (h : Reads tokens s.position [.leftBracket, .integer n]) (nonzero : n ≠ 0)
    (value : Number.int64? n.toNat = some rank) :
    TailOutcome tokens name s ((do
      advance tokens
      expect tokens .rightBracket
      expect tokens .dot
      let field ← identifier tokens "a field name"
      return .ref ⟨name, rank, field⟩ : Parser Expr).run { s with position := s.position + 1 }) := by
  rw [run_bind_ok (run_advance (by simp [h.2.1])), EStateM.run_bind, run_expect (by simp)]
  by_cases hc : kindAt tokens (s.position + 2) = .rightBracket
  case neg =>
    simp only [if_neg hc]
    exact ⟨_, .closing h nonzero value hc, rfl⟩
  simp only [if_pos hc]
  rw [EStateM.run_bind, run_expect (by simp)]
  by_cases hd : kindAt tokens (s.position + 3) = .dot
  case neg =>
    simp only [if_neg hd]
    exact ⟨_, .dot ⟨h.1, h.2.1, hc, trivial⟩ nonzero value hd, rfl⟩
  simp only [if_pos hd]
  rw [EStateM.run_bind, run_identifier]
  cases hf : kindAt tokens (s.position + 4) with
  | ident field =>
    simp only
    have value := Number.int64?_eq_some_iff.1 value
    have hn : n.toNat ≠ 0 := fun e => nonzero (UInt64.toNat_inj.1 e)
    exact ⟨n, rank, field, ⟨h.1, h.2.1, hc, hd, hf, trivial⟩, value, by omega, rfl, rfl⟩
  | _ =>
    simp only
    exact ⟨_, .field ⟨h.1, h.2.1, hc, hd, trivial⟩ nonzero value (by simp [hf]), rfl⟩

theorem tailOutcome (tokens : Array Token) (s : Progress) (name : String) :
    TailOutcome tokens name s ((referenceTail tokens name : Parser Expr).run s) := by
  rw [referenceTail]
  simp only [liftM_operation]
  rw [EStateM.run_bind, run_expect (by simp)]
  by_cases hl : kindAt tokens s.position = .leftBracket
  case neg =>
    simp only [if_neg hl]
    exact ⟨_, .opening hl, rfl⟩
  simp only [if_pos hl]
  rw [run_bind_ok run_current]
  cases hr : kindAt tokens (s.position + 1) with
  | integer n =>
    have hk : (tokenAt tokens (s.position + 1)).kind = .integer n := hr
    simp only [hk]
    by_cases hz : n = 0
    · subst hz
      simp only [if_true, EStateM.run_bind, run_refuse]
      exact ⟨_, .zero ⟨hl, hr, trivial⟩, rfl⟩
    simp only [if_neg hz]
    cases hv : Number.int64? n.toNat with
    | none =>
      simp only [EStateM.run_bind, run_refuse]
      exact ⟨_, .overflow ⟨hl, hr, trivial⟩ hz hv, rfl⟩
    | some rank => exact tailOutcome_rank name ⟨hl, hr, trivial⟩ hz hv
  | _ =>
    have hk : (tokenAt tokens (s.position + 1)).kind = _ := hr
    simp only [hk, EStateM.run_bind, run_unexpected]
    exact ⟨_, .rank ⟨hl, trivial⟩ (by simp [hr]), rfl⟩

/-- A reference that is complete is read. -/
theorem run_referenceTail {name field : String} {n : UInt64} {rank : Int64}
    (h : Reads tokens s.position [.leftBracket, .integer n, .rightBracket, .dot, .ident field])
    (value : rank.toInt = n.toNat) (positive : 1 ≤ rank.toInt) :
    (referenceTail tokens name : Parser Expr).run s = .ok (.ref ⟨name, rank, field⟩) { s with position := s.position + 5 } := by
  have houtcome := tailOutcome tokens s name
  obtain ⟨h0, h1, h2, h3, h4, -⟩ := h
  cases hrun : (referenceTail tokens name : Parser Expr).run s with
  | ok e t =>
    rw [hrun] at houtcome
    obtain ⟨n', rank', field', ⟨-, h1', -, -, h4', -⟩, value', -, rfl, rfl⟩ := houtcome
    obtain rfl : n = n' := by simpa [h1] using h1'
    obtain rfl : field = field' := by simpa [h4] using h4'
    obtain rfl : rank = rank' := Int64.toInt_inj.1 (value.trans value'.symm)
    rfl
  | error stop t =>
    rw [hrun] at houtcome
    obtain ⟨position, hfails, -⟩ := houtcome
    have hn := Number.int64?_eq_some_iff.2 value
    have h0' : n ≠ 0 := by rintro rfl; simp at value; omega
    cases hfails <;> simp_all

end PropertyExpr.Expr.Parser
