import PropertyExpr.Proofs.ParserRuns
/-!
# How a run of the parser ends

`outcome` says all that a run for a tier can do. It returns a tree that the tokens it has passed derive, with no
operator left to go on with and the operators of the tree charged; or it stops, and then `Fails` says where and
why. The level at which a run starts is restored either way.

`Fails` has one rule for each way to stop and one for each way to pass on a stop from further inside, so whatever
holds of all stops is proved by induction on it.
-/
namespace PropertyExpr.Expr

/-- No operator of the tier, or of one inside it, has the kind `k`. -/
def Tier.Closed : Tier → Token.Kind → Prop
  | .factor, _ => True
  | .product, k => ∀ op, ¬ Operates .product k op
  | .sum, k => (∀ op, ¬ Operates .product k op) ∧ ∀ op, ¬ Operates .sum k op

theorem Tier.Over.closed_iff {tier below : Tier} (above : tier.Over below) (k : Token.Kind) :
    tier.Closed k ↔ below.Closed k ∧ ∀ op, ¬ tier.Operates k op := by
  cases above <;> simp [Closed]

theorem Tier.sum_closed_rightParen : Tier.sum.Closed .rightParen := by
  constructor <;> rintro _ ⟨⟩

theorem Tier.sum_closed_blockEnd : Tier.sum.Closed .blockEnd := by
  constructor <;> rintro _ ⟨⟩

/-- An operator of the tier does not go on with what stands before it. -/
theorem Tier.Over.closed_of_operator {tier below : Tier} (above : tier.Over below) {k : Token.Kind} {op : Operator}
    (h : tier.Operates k op) : below.Closed k := by
  cases above with
  | product => trivial
  | sum => cases h <;> rintro _ ⟨⟩

namespace Parser

/-- `more` operators can be charged when `built` have been. -/
def Chargeable (built more : Nat) : Prop := more = 0 ∨ built + more ≤ maxOperators

theorem chargeable_zero (built : Nat) : Chargeable built 0 := .inl rfl

theorem chargeable_add {built n m : Nat} :
    Chargeable built (n + m) ↔ Chargeable built n ∧ Chargeable (built + n) m := by
  unfold Chargeable
  omega

theorem chargeable_one {built : Nat} : Chargeable built 1 ↔ built < maxOperators := by
  unfold Chargeable
  omega

theorem Chargeable.le {built more : Nat} (h : Chargeable built more) : more ≤ maxOperators := by
  unfold Chargeable at h
  omega

/-- Where a run leaves the parser that has passed `ks` and built `e`. -/
def Progress.after (s : Progress) (ks : List Token.Kind) (e : Expr) : Progress :=
  ⟨s.position + ks.length, s.depth, s.operators + e.operatorCount⟩

variable (tokens : Array Token)

/-- `Fails tokens tier room p n stop q m`: reading a `tier` from `p` on, with `n` operators charged and `room`
levels left, ends with `stop` at `q` when `m` operators have been charged. -/
inductive Fails : Tier → (room : Nat) → (p n : Nat) → Stop → (q m : Nat) → Prop where
  | other {room p n : Nat} (h : StartsNoFactor (kindAt tokens p)) :
      Fails .factor room p n (unexpectedAt tokens "a number, string, reference or '('" p) p n
  | integer {room p n : Nat} {v : UInt64} (h : kindAt tokens p = .integer v)
      (hv : Number.int64? v.toNat = none) :
      Fails .factor room p n (overflowAt tokens (toString v.toNat) p) p n
  | tail {room p n q : Nat} {name : String} {stop : Stop} (h : kindAt tokens p = .ident name)
      (ht : TailFails tokens (p + 1) stop q) :
      Fails .factor room p n stop q n
  | parenTooDeep {p n : Nat} (h : kindAt tokens p = .leftParen) :
      Fails .factor 0 p n (stopAt tokens tooDeep (p + 1)) (p + 1) n
  | inParen {room p n q m : Nat} {stop : Stop} (h : kindAt tokens p = .leftParen)
      (inner : Fails .sum room (p + 1) n stop q m) :
      Fails .factor (room + 1) p n stop q m
  | unclosed {room p n : Nat} {ks : List Token.Kind} {e : Expr} (h : Reads tokens p (.leftParen :: ks))
      (inner : Derives .sum room ks e) (charged : Chargeable n e.operatorCount)
      (closed : Tier.sum.Closed (kindAt tokens (p + 1 + ks.length)))
      (hk : kindAt tokens (p + 1 + ks.length) ≠ .rightParen) :
      Fails .factor (room + 1) p n (unexpectedAt tokens "')'" (p + 1 + ks.length)) (p + 1 + ks.length)
        (n + e.operatorCount)
  | signedInteger {room p n : Nat} {v : UInt64} (h : Reads tokens p [.minus, .integer v])
      (hv : Number.int64? (-v.toNat) = none) :
      Fails .factor room p n
        (.refused (.mark (.integerOverflow ("-" ++ toString v.toNat))
          ((locationAt tokens p).spanTo (locationAt tokens (p + 1)))))
        (p + 2) n
  | signTooDeep {p n : Nat} (h : kindAt tokens p = .minus) (hi : ∀ v, kindAt tokens (p + 1) ≠ .integer v) :
      Fails .factor 0 p n (stopAt tokens tooDeep (p + 1)) (p + 1) n
  | behindSign {room p n q m : Nat} {stop : Stop} (h : kindAt tokens p = .minus)
      (hi : ∀ v, kindAt tokens (p + 1) ≠ .integer v) (inner : Fails .factor room (p + 1) n stop q m) :
      Fails .factor (room + 1) p n stop q m
  | negation {room p n : Nat} {ks : List Token.Kind} (h : Reads tokens p (.minus :: ks))
      (hi : ∀ v, kindAt tokens (p + 1) ≠ .integer v) (operand : Derives .factor room ks (.number Int64.minValue)) :
      Fails .factor (room + 1) p n (negationOverflow tokens p (p + 1 + ks.length)) (p + 1 + ks.length) n
  | chargeSign {room p n : Nat} {ks : List Token.Kind} {e : Expr} (h : Reads tokens p (.minus :: ks))
      (hi : ∀ v, kindAt tokens (p + 1) ≠ .integer v) (operand : Derives .factor room ks e)
      (notNumber : ∀ i, e ≠ .number i) (charged : Chargeable n e.operatorCount)
      (full : ¬ Chargeable (n + e.operatorCount) 1) :
      Fails .factor (room + 1) p n (stopAt tokens tooManyOperators p) (p + 1 + ks.length)
        (n + e.operatorCount + 1)
  | first {tier below : Tier} {room p n q m : Nat} {stop : Stop} (above : tier.Over below)
      (inner : Fails below room p n stop q m) :
      Fails tier room p n stop q m
  | second {tier below : Tier} {room p n q m : Nat} {stop : Stop} {ks : List Token.Kind} {k : Token.Kind}
      {op : Operator} {left : Expr} (above : tier.Over below)
      (h : Reads tokens p (ks ++ [k])) (derived : Derives tier room ks left) (operator : tier.Operates k op)
      (charged : Chargeable n left.operatorCount)
      (inner : Fails below room (p + ks.length + 1) (n + left.operatorCount) stop q m) :
      Fails tier room p n stop q m
  | chargeOperator {tier below : Tier} {room p n : Nat} {ks ks' : List Token.Kind} {k : Token.Kind} {op : Operator}
      {left right : Expr} (above : tier.Over below) (h : Reads tokens p (ks ++ k :: ks'))
      (derived : Derives tier room ks left) (operator : tier.Operates k op)
      (operand : Derives below room ks' right)
      (closed : below.Closed (kindAt tokens (p + ks.length + 1 + ks'.length)))
      (charged : Chargeable n (left.operatorCount + right.operatorCount))
      (full : ¬ Chargeable (n + left.operatorCount + right.operatorCount) 1) :
      Fails tier room p n (stopAt tokens tooManyOperators (p + ks.length)) (p + ks.length + 1 + ks'.length)
        (n + left.operatorCount + right.operatorCount + 1)

/-- How a run for a tier ends that starts at `s` with `room` levels left. -/
def Outcome (tier : Tier) (room : Nat) (s : Progress) : EStateM.Result Stop Progress Expr → Prop
  | .ok e t => ∃ ks, Derives tier room ks e ∧ Reads tokens s.position ks ∧
      tier.Closed (kindAt tokens (s.position + ks.length)) ∧ Chargeable s.operators e.operatorCount ∧
      t = s.after ks e
  | .error stop t => ∃ q m, Fails tokens tier room s.position s.operators stop q m ∧ t = ⟨q, s.depth, m⟩

/-- The run for a tier with `room` levels left. -/
def runAt : Tier → (room : Nat) → Parser Expr
  | .factor, room => factorAt tokens room
  | .product, room => product tokens (factorAt tokens room)
  | .sum, room => sum tokens (factorAt tokens room)

variable {tokens} {s : Progress} {tier below : Tier} {room : Nat}

theorem runAt_eq_chain (above : tier.Over below) :
    runAt tokens tier room =
      runAt tokens below room >>= chain tokens (operator? tier) (runAt tokens below room) maxOperators := by
  cases above <;> rfl

/-! ## Chains -/

section
variable {operand : Parser Expr} {allowance : Nat} {left : Expr}

theorem run_link_none {others : Location → Expr → Parser Expr}
    (h : operator? tier (kindAt tokens s.position) = none) :
    (link tokens (operator? tier) operand others left).run s = .ok left s := by
  rw [link]
  simp only [liftM_operation]
  rw [run_bind_ok run_current]
  have hk : operator? tier (tokenAt tokens s.position).kind = none := h
  simp only [hk, EStateM.run_pure]

/-- One more operator: its right operand is read, and then it is charged. -/
theorem run_link_some {others : Location → Expr → Parser Expr} {op : Operator}
    (h : tier.Operates (kindAt tokens s.position) op) :
    (link tokens (operator? tier) operand others left).run s =
      match operand.run { s with position := s.position + 1 } with
      | .ok right t =>
        if t.operators < maxOperators then
          (others (locationAt tokens s.position) (.binary op left right)).run { t with operators := t.operators + 1 }
        else .error (stopAt tokens tooManyOperators s.position) { t with operators := t.operators + 1 }
      | .error stop t => .error stop t := by
  rw [link]
  simp only [liftM_operation]
  rw [run_bind_ok run_current]
  have ho : operator? tier (tokenAt tokens s.position).kind = some op := operator?_eq_some_iff.2 h
  simp only [ho]
  rw [run_bind_ok (run_advance h.ne_blockEnd), EStateM.run_bind]
  cases operand.run { s with position := s.position + 1 } with
  | error stop t => rfl
  | ok right t =>
    simp only [EStateM.run_bind, run_charge]
    by_cases hc : t.operators < maxOperators
    · simp only [if_pos hc]
      rfl
    · simp only [if_neg hc]

theorem run_chain_none (h : ∀ op, ¬ tier.Operates (kindAt tokens s.position) op) :
    (chain tokens (operator? tier) operand allowance left).run s = .ok left s := by
  cases allowance <;> exact run_link_none (operator?_eq_none_iff.2 h)

theorem run_chain_some {op : Operator} (h : tier.Operates (kindAt tokens s.position) op) :
    (chain tokens (operator? tier) operand allowance left).run s =
      match operand.run { s with position := s.position + 1 } with
      | .ok right t =>
        if t.operators < maxOperators then
          match allowance with
          | 0 => .error (stopAt tokens tooManyOperators s.position) { t with operators := t.operators + 1 }
          | allowance + 1 =>
            (chain tokens (operator? tier) operand allowance (.binary op left right)).run
              { t with operators := t.operators + 1 }
        else .error (stopAt tokens tooManyOperators s.position) { t with operators := t.operators + 1 }
      | .error stop t => .error stop t := by
  cases allowance <;> exact run_link_some h

end

theorem Progress.after_chain (s : Progress) (ks ks' : List Token.Kind) (k : Token.Kind) (op : Operator)
    (left right : Expr) :
    s.after (ks ++ k :: ks') (.binary op left right) =
      ⟨s.position + ks.length + 1 + ks'.length, s.depth,
        s.operators + left.operatorCount + right.operatorCount + 1⟩ := by
  simp only [Progress.after, Expr.operatorCount, List.length_append, List.length_cons, Progress.mk.injEq, true_and]
  omega

/-- What has been read of a chain is `left`; the operators are used up before the allowance is. -/
theorem chain_outcome (above : tier.Over below)
    (hoperand : ∀ s : Progress, s.depth + room = maxDepth →
      Outcome tokens below room s ((runAt tokens below room).run s))
    (hs : s.depth + room = maxDepth) (allowance : Nat) (left : Expr) (ks : List Token.Kind)
    (derived : Derives tier room ks left) (reads : Reads tokens s.position ks)
    (closed : below.Closed (kindAt tokens (s.position + ks.length)))
    (charged : Chargeable s.operators left.operatorCount) (enough : maxOperators ≤ allowance + left.operatorCount) :
    Outcome tokens tier room s
      ((chain tokens (operator? tier) (runAt tokens below room) allowance left).run (s.after ks left)) := by
  cases htable : operator? tier (kindAt tokens (s.position + ks.length)) with
  | none =>
    have hop := operator?_eq_none_iff.1 htable
    rw [run_chain_none hop]
    exact ⟨ks, derived, reads, (above.closed_iff _).2 ⟨closed, hop⟩, charged, rfl⟩
  | some op =>
    have hop := operator?_eq_some_iff.1 htable
    rw [run_chain_some hop]
    have houtcome := hoperand { s.after ks left with position := s.position + ks.length + 1 } hs
    cases hrun : (runAt tokens below room).run { s.after ks left with position := s.position + ks.length + 1 } with
    | error stop t =>
      rw [hrun] at houtcome
      obtain ⟨q, m, fails, rfl⟩ := houtcome
      simp only [Progress.after] at hrun fails ⊢
      simp only [hrun]
      exact ⟨q, m, .second above (by simp [reads]) derived hop charged fails, rfl⟩
    | ok right t =>
      rw [hrun] at houtcome
      obtain ⟨ks', derived', reads', closed', charged', rfl⟩ := houtcome
      simp only [Progress.after] at hrun reads' closed' charged' ⊢
      simp only [hrun]
      have hreads : Reads tokens s.position (ks ++ kindAt tokens (s.position + ks.length) :: ks') := by
        simp [reads, reads']
      have hcharged := chargeable_add.2 ⟨charged, charged'⟩
      by_cases hc : s.operators + left.operatorCount + right.operatorCount < maxOperators
      case neg =>
        simp only [if_neg hc]
        exact ⟨_, _, .chargeOperator above hreads derived hop derived' closed' hcharged (mt chargeable_one.1 hc), rfl⟩
      simp only [if_pos hc]
      cases allowance with
      | zero => omega
      | succ allowance =>
        have := chain_outcome above hoperand hs allowance (.binary op left right) _
          (.chain above derived hop derived') hreads (by simpa [Nat.add_assoc, Nat.add_comm 1] using closed')
          (chargeable_add.2 ⟨hcharged, chargeable_one.2 (by omega)⟩) (by simp only [Expr.operatorCount]; omega)
        rwa [Progress.after_chain] at this

/-! ## Factors -/

/-- What reads the inside of a factor that has `room` levels left. -/
def insideFactor (tokens : Array Token) : (room : Nat) → Parser Expr
  | 0 => do refuse tooDeep (← current tokens).location
  | room + 1 => runAt tokens .factor room

theorem runAt_factor (tokens : Array Token) (room : Nat) :
    runAt tokens .factor room =
      factor tokens (sum tokens (insideFactor tokens room)) (insideFactor tokens room) := by
  cases room <;> rfl

theorem runAt_factor_succ :
    runAt tokens .factor (room + 1) = factor tokens (runAt tokens .sum room) (runAt tokens .factor room) := rfl

theorem paren_outcome (hs : s.depth + room = maxDepth)
    (hinner : ∀ r, room = r + 1 → ∀ (tier : Tier) (s : Progress), s.depth + r = maxDepth →
      Outcome tokens tier r s ((runAt tokens tier r).run s))
    (h : kindAt tokens s.position = .leftParen) :
    Outcome tokens .factor room s ((runAt tokens .factor room).run s) := by
  cases room with
  | zero =>
    rw [runAt_factor, run_factor_leftParen_full h (by omega)]
    exact ⟨_, _, .parenTooDeep h, rfl⟩
  | succ room =>
    rw [runAt_factor_succ, run_factor_leftParen h (by omega)]
    have houtcome := hinner room rfl .sum ⟨s.position + 1, s.depth + 1, s.operators⟩ (by simp only; omega)
    cases hrun : (runAt tokens .sum room).run ⟨s.position + 1, s.depth + 1, s.operators⟩ with
    | error stop t =>
      rw [hrun] at houtcome
      obtain ⟨q, m, fails, rfl⟩ := houtcome
      exact ⟨q, m, .inParen h fails, rfl⟩
    | ok e t =>
      rw [hrun] at houtcome
      obtain ⟨ks, derived, reads, closed, charged, rfl⟩ := houtcome
      simp only [Progress.after, Nat.add_sub_cancel] at reads closed charged ⊢
      by_cases hr : kindAt tokens (s.position + 1 + ks.length) = .rightParen
      · rw [if_pos hr]
        refine ⟨.leftParen :: (ks ++ [.rightParen]), .paren derived, ?_, trivial, charged, ?_⟩
        · simp [h, reads, hr]
        · simp [Progress.after, Nat.add_assoc, Nat.add_comm 1]
      · rw [if_neg hr]
        exact ⟨_, _, .unclosed ⟨h, reads⟩ derived charged closed hr, rfl⟩

/-- The operand of a sign has been read and its level left. -/
theorem negated_outcome {ks : List Token.Kind} {e : Expr} (h : kindAt tokens s.position = .minus)
    (hi : ∀ n, kindAt tokens (s.position + 1) ≠ .integer n) (derived : Derives .factor room ks e)
    (reads : Reads tokens (s.position + 1) ks) (charged : Chargeable s.operators e.operatorCount) :
    Outcome tokens .factor (room + 1) s
      (negated tokens s.position e ⟨s.position + 1 + ks.length, s.depth, s.operators + e.operatorCount⟩) := by
  have hreads : Reads tokens s.position (.minus :: ks) := ⟨h, reads⟩
  have hpos : s.position + 1 + ks.length = s.position + (.minus :: ks : List Token.Kind).length := by
    simp [Nat.add_assoc, Nat.add_comm 1]
  by_cases hnumber : ∀ i, e ≠ .number i
  case pos =>
    rw [negated_of_ne_number hnumber]
    by_cases hc : s.operators + e.operatorCount < maxOperators
    · rw [if_pos hc]
      refine ⟨_, .negated derived hnumber, hreads, trivial, ?_, ?_⟩
      · simpa [Expr.operatorCount] using chargeable_add.2 ⟨charged, chargeable_one.2 hc⟩
      · simp [Progress.after, Expr.operatorCount, hpos, Nat.add_assoc]
    · rw [if_neg hc]
      exact ⟨_, _, .chargeSign hreads hi derived hnumber charged (mt chargeable_one.1 hc), rfl⟩
  obtain ⟨i, rfl⟩ : ∃ i, e = .number i := by simpa using hnumber
  simp only [negated]
  cases hv : Number.int64? (-i.toInt) with
  | none =>
    obtain rfl := eq_minValue_of_neg hv
    exact ⟨_, _, .negation hreads hi derived, rfl⟩
  | some j =>
    have notInteger : ∀ n, ks ≠ [.integer n] := fun n e => hi n (by subst e; exact reads.1)
    refine ⟨_, .negatedNumber derived notInteger (Number.int64?_eq_some_iff.1 hv), hreads, trivial, charged, ?_⟩
    simp [Progress.after, Expr.operatorCount, hpos]

theorem sign_outcome (hs : s.depth + room = maxDepth)
    (hinner : ∀ r, room = r + 1 → ∀ (tier : Tier) (s : Progress), s.depth + r = maxDepth →
      Outcome tokens tier r s ((runAt tokens tier r).run s))
    (h : kindAt tokens s.position = .minus) (hi : ∀ n, kindAt tokens (s.position + 1) ≠ .integer n) :
    Outcome tokens .factor room s ((runAt tokens .factor room).run s) := by
  cases room with
  | zero =>
    rw [runAt_factor, run_factor_minus_full h hi (by omega)]
    exact ⟨_, _, .signTooDeep h hi, rfl⟩
  | succ room =>
    rw [runAt_factor_succ, run_factor_minus_other h hi (by omega)]
    have houtcome := hinner room rfl .factor ⟨s.position + 1, s.depth + 1, s.operators⟩ (by simp only; omega)
    cases hrun : (runAt tokens .factor room).run ⟨s.position + 1, s.depth + 1, s.operators⟩ with
    | error stop t =>
      rw [hrun] at houtcome
      obtain ⟨q, m, fails, rfl⟩ := houtcome
      exact ⟨q, m, .behindSign h hi fails, rfl⟩
    | ok e t =>
      rw [hrun] at houtcome
      obtain ⟨ks, derived, reads, -, charged, rfl⟩ := houtcome
      exact negated_outcome h hi derived reads charged

theorem factor_outcome (hs : s.depth + room = maxDepth)
    (hinner : ∀ r, room = r + 1 → ∀ (tier : Tier) (s : Progress), s.depth + r = maxDepth →
      Outcome tokens tier r s ((runAt tokens tier r).run s)) :
    Outcome tokens .factor room s ((runAt tokens .factor room).run s) := by
  cases h : kindAt tokens s.position with
  | leftParen => exact paren_outcome hs hinner h
  | minus =>
    by_cases hi : ∀ n, kindAt tokens (s.position + 1) ≠ .integer n
    case pos => exact sign_outcome hs hinner h hi
    obtain ⟨n, hn⟩ : ∃ n, kindAt tokens (s.position + 1) = .integer n := by simpa using hi
    rw [runAt_factor, run_factor_minus_integer h hn]
    cases hv : Number.int64? (-n.toNat) with
    | none => exact ⟨_, _, .signedInteger ⟨h, hn, trivial⟩ hv, rfl⟩
    | some i =>
      exact ⟨_, .signedInteger (Number.int64?_eq_some_iff.1 hv), ⟨h, hn, trivial⟩, trivial, chargeable_zero _, rfl⟩
  | integer n =>
    rw [runAt_factor, run_factor_integer h]
    cases hv : Number.int64? n.toNat with
    | none => exact ⟨_, _, .integer h hv, rfl⟩
    | some i =>
      exact ⟨_, .integer (Number.int64?_eq_some_iff.1 hv), ⟨h, trivial⟩, trivial, chargeable_zero _, rfl⟩
  | string text =>
    rw [runAt_factor, run_factor_string h]
    exact ⟨_, .string, ⟨h, trivial⟩, trivial, chargeable_zero _, rfl⟩
  | ident name =>
    rw [runAt_factor, run_factor_ident h]
    have houtcome := tailOutcome tokens { s with position := s.position + 1 } name
    cases hrun : (referenceTail tokens name : Parser Expr).run { s with position := s.position + 1 } with
    | error stop t =>
      rw [hrun] at houtcome
      obtain ⟨q, fails, rfl⟩ := houtcome
      exact ⟨q, _, .tail h fails, rfl⟩
    | ok e t =>
      rw [hrun] at houtcome
      obtain ⟨n, rank, field, reads, value, positive, rfl, rfl⟩ := houtcome
      exact ⟨_, .reference value positive, ⟨h, reads⟩, trivial, chargeable_zero _, rfl⟩
  | _ =>
    have hother : StartsNoFactor (kindAt tokens s.position) := by rw [h]; trivial
    rw [runAt_factor, run_factor_other hother]
    exact ⟨_, _, .other hother, rfl⟩

/-! ## Runs -/

/-- A chain is read when its operands are. -/
theorem operands_outcome (above : tier.Over below)
    (hoperand : ∀ s : Progress, s.depth + room = maxDepth →
      Outcome tokens below room s ((runAt tokens below room).run s))
    (hs : s.depth + room = maxDepth) : Outcome tokens tier room s ((runAt tokens tier room).run s) := by
  have hfirst := hoperand s hs
  rw [runAt_eq_chain above, EStateM.run_bind]
  cases hrun : (runAt tokens below room).run s with
  | error stop t =>
    rw [hrun] at hfirst
    obtain ⟨q, m, fails, rfl⟩ := hfirst
    exact ⟨q, m, .first above fails, rfl⟩
  | ok e t =>
    rw [hrun] at hfirst
    obtain ⟨ks, derived, reads, closed, charged, rfl⟩ := hfirst
    exact chain_outcome above hoperand hs maxOperators e ks (.single above derived) reads closed charged (by omega)

/-- One level is read when the levels inside it are. -/
theorem level_outcome (hinner : ∀ r, room = r + 1 → ∀ (tier : Tier) (s : Progress), s.depth + r = maxDepth →
      Outcome tokens tier r s ((runAt tokens tier r).run s)) :
    ∀ (tier : Tier) (s : Progress), s.depth + room = maxDepth →
      Outcome tokens tier room s ((runAt tokens tier room).run s)
  | .factor, _, hs => factor_outcome hs hinner
  | .product, _, hs => operands_outcome .product (fun _ h => factor_outcome h hinner) hs
  | .sum, _, hs =>
    operands_outcome .sum (fun _ h => operands_outcome .product (fun _ h => factor_outcome h hinner) h) hs

/-- **How a run ends**, for every row, tier and state in which levels open and levels left make up the limit. -/
theorem outcome (tokens : Array Token) (room : Nat) (tier : Tier) (s : Progress) (hs : s.depth + room = maxDepth) :
    Outcome tokens tier room s ((runAt tokens tier room).run s) := by
  induction room generalizing tier s with
  | zero => exact level_outcome (by simp) tier s hs
  | succ room ih => exact level_outcome (by rintro r ⟨⟩; exact ih) tier s hs

/-- A run of the whole parser reads a sum, behind which the block must end. -/
theorem run_expression : (expression tokens : Parser Expr).run s =
    match (runAt tokens .sum maxDepth).run s with
    | .ok e t =>
      if kindAt tokens t.position = .blockEnd then .ok e t
      else .error (unexpectedAt tokens "an operator or the end of the block" t.position) t
    | .error stop t => .error stop t := by
  have hsum : sum tokens (factorAt tokens maxDepth) = runAt tokens .sum maxDepth := rfl
  rw [expression, hsum, whole]
  simp only [liftM_operation]
  rw [EStateM.run_bind]
  cases (runAt tokens .sum maxDepth).run s with
  | error stop t => rfl
  | ok e t => exact (run_bind_ok run_current).trans (run_ite _ _ _ _)

theorem parse_eq (tokens : Array Token) (s : Progress) : parse tokens s =
    match (expression tokens : Parser Expr).run s with
    | .ok e t => (.ok e, t)
    | .error stop t => (.error stop, t) := rfl

/-- How a call of the whole parser ends. -/
inductive CallEnds (tokens : Array Token) (s : Progress) : Except Stop Expr × Progress → Prop where
  | accepted {ks : List Token.Kind} {e : Expr} (derived : Derives .sum maxDepth ks e)
      (reads : Reads tokens s.position ks) (hend : kindAt tokens (s.position + ks.length) = .blockEnd)
      (charged : Chargeable s.operators e.operatorCount) : CallEnds tokens s (.ok e, s.after ks e)
  | unfinished {ks : List Token.Kind} {e : Expr} (derived : Derives .sum maxDepth ks e)
      (reads : Reads tokens s.position ks) (closed : Tier.sum.Closed (kindAt tokens (s.position + ks.length)))
      (hk : kindAt tokens (s.position + ks.length) ≠ .blockEnd) (charged : Chargeable s.operators e.operatorCount) :
      CallEnds tokens s (.error (unexpectedAt tokens "an operator or the end of the block"
        (s.position + ks.length)), s.after ks e)
  | failed {stop : Stop} {q m : Nat} (fails : Fails tokens .sum maxDepth s.position s.operators stop q m) :
      CallEnds tokens s (.error stop, ⟨q, s.depth, m⟩)

/-- **How a call ends** that starts with no level open. -/
theorem callEnds (tokens : Array Token) (hs : s.depth = 0) : CallEnds tokens s (parse tokens s) := by
  have houtcome := outcome tokens maxDepth .sum s (by omega)
  rw [parse_eq, run_expression]
  cases hrun : (runAt tokens .sum maxDepth).run s with
  | error stop t =>
    rw [hrun] at houtcome
    obtain ⟨q, m, fails, rfl⟩ := houtcome
    exact .failed fails
  | ok e t =>
    rw [hrun] at houtcome
    obtain ⟨ks, derived, reads, closed, charged, rfl⟩ := houtcome
    by_cases hend : kindAt tokens (s.after ks e).position = .blockEnd
    · simp only [if_pos hend]
      exact .accepted derived reads hend charged
    · simp only [if_neg hend]
      exact .unfinished derived reads closed hend charged

end Parser

end PropertyExpr.Expr
