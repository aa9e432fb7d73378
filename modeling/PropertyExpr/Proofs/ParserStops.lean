import PropertyExpr.Proofs.ParserCorrect
/-!
# Where the parser stops

`run_eq_error_iff` — a run stops exactly as `Fails` says, so its rules are all there is to know about failed runs.
One half is `outcome`; the other, that each rule is met, is an induction over the rules in which what has been read
before is accepted.
-/
namespace PropertyExpr.Expr.Parser

variable {tokens : Array Token} {tier below : Tier} {room : Nat}
  {ks : List Token.Kind} {e left : Expr} {stop : Stop}

/-- A chain that is derived is read; behind it the parser looks for the next operator. -/
theorem run_chain_of_derives (above : tier.Over below) (derived : Derives tier room ks e)
    (s : Progress) (hs : s.depth + room = maxDepth) (reads : Reads tokens s.position ks)
    (closed : below.Closed (kindAt tokens (s.position + ks.length)))
    (charged : Chargeable s.operators e.operatorCount) :
    ∃ allowance, maxOperators ≤ allowance + e.operatorCount ∧ (runAt tokens tier room).run s =
      (chain tokens (operator? tier) (runAt tokens below room) allowance e).run (s.after ks e) := by
  cases derived.fromOperands with
  | factor => cases above
  | operands above' first links =>
    obtain rfl := above.unique above'
    exact run_operands above (accepts first) (links.imp fun _ _ => accepts) s hs reads closed charged

/-- A reference is incomplete in one way only. -/
theorem TailFails.unique {position q q' : Nat} {stop' : Stop} (h : TailFails tokens position stop q)
    (h' : TailFails tokens position stop' q') : stop = stop' ∧ q = q' := by
  cases h <;> cases h' <;> simp_all

theorem run_referenceTail_of_fails {name : String} {s : Progress} {q : Nat} (h : TailFails tokens s.position stop q) :
    (referenceTail tokens name : Parser Expr).run s = .error stop { s with position := q } := by
  have houtcome := tailOutcome tokens s name
  cases hrun : (referenceTail tokens name : Parser Expr).run s with
  | ok e t =>
    rw [hrun] at houtcome
    obtain ⟨n, rank, field, ⟨h0, h1, h2, h3, h4, -⟩, value, positive, -⟩ := houtcome
    have hn := Number.int64?_eq_some_iff.2 value
    have h0' : n ≠ 0 := by rintro rfl; simp at value; omega
    cases h <;> simp_all
  | error stop' t =>
    rw [hrun] at houtcome
    obtain ⟨q', h', rfl⟩ := houtcome
    obtain ⟨rfl, rfl⟩ := h.unique h'
    rfl

/-- Each rule for stopping is met: the run stops that way. -/
theorem Fails.run {p n q m : Nat} (h : Fails tokens tier room p n stop q m) (depth : Nat)
    (hs : depth + room = maxDepth) : (runAt tokens tier room).run ⟨p, depth, n⟩ = .error stop ⟨q, depth, m⟩ := by
  induction h generalizing depth with
  | @other room p n h =>
    rw [runAt_factor, run_factor_other h]
  | @integer room p n v h hv =>
    rw [runAt_factor, run_factor_integer h, hv]
  | @tail room p n q name stop h ht =>
    rw [runAt_factor, run_factor_ident h, run_referenceTail_of_fails ht]
  | parenTooDeep h => rw [runAt_factor, run_factor_leftParen_full h (by exact hs)]
  | @inParen room p n q m stop h _ ih =>
    rw [runAt_factor_succ, run_factor_leftParen h (by simp only; omega), ih (depth + 1) (by omega)]
    rfl
  | @unclosed room p n ks e h inner charged closed hk =>
    have hsum := accepts inner ⟨p + 1, depth + 1, n⟩ (by simp only; omega) h.2 closed charged
    rw [runAt_factor_succ, run_factor_leftParen h.1 (by simp only; omega), hsum]
    exact if_neg hk
  | @signedInteger room p n v h hv =>
    rw [runAt_factor, run_factor_minus_integer h.1 h.2.1, hv]
  | signTooDeep h hi => rw [runAt_factor, run_factor_minus_full h hi (by exact hs)]
  | @behindSign room p n q m stop h hi _ ih =>
    rw [runAt_factor_succ, run_factor_minus_other h hi (by simp only; omega)]
    rw [ih (depth + 1) (by omega)]
    rfl
  | @negation room p n ks h hi operand =>
    rw [run_sign_of_accepts (accepts operand) ⟨p, depth, n⟩ (by simp only; omega) h hi (chargeable_zero n)]
    rfl
  | @chargeSign room p n ks e h hi operand notNumber charged full =>
    rw [run_sign_of_accepts (accepts operand) ⟨p, depth, n⟩ (by simp only; omega) h hi charged,
      negated_of_ne_number notNumber]
    exact if_neg (mt chargeable_one.2 full)
  | first above _ ih => rw [runAt_eq_chain above, run_bind_error (ih depth hs)]
  | @second tier below room p n q m stop ks k op left above h derived operator charged _ ih =>
    obtain ⟨reads, hk, -⟩ := reads_append.1 h
    obtain rfl : kindAt tokens (p + ks.length) = k := hk
    obtain ⟨allowance, -, hrun⟩ := run_chain_of_derives above derived ⟨p, depth, n⟩ hs reads
      (above.closed_of_operator operator) charged
    rw [hrun, run_chain_some operator]
    simp only [Progress.after]
    rw [ih depth hs]
  | @chargeOperator tier below room p n ks ks' k op left right above h derived operator operand closed
      charged full =>
    obtain ⟨reads, hk, reads'⟩ := reads_append.1 h
    obtain rfl : kindAt tokens (p + ks.length) = k := hk
    obtain ⟨charged, charged'⟩ := chargeable_add.1 charged
    obtain ⟨allowance, -, hrun⟩ := run_chain_of_derives above derived ⟨p, depth, n⟩ hs reads
      (above.closed_of_operator operator) charged
    rw [hrun, run_chain_some operator]
    simp only [Progress.after]
    rw [accepts operand ⟨p + ks.length + 1, depth, n + left.operatorCount⟩ hs reads' closed charged']
    exact if_neg (mt chargeable_one.2 full)

/-- **Where and why a run stops.** -/
theorem run_eq_error_iff {s t : Progress} (hs : s.depth + room = maxDepth) :
    (runAt tokens tier room).run s = .error stop t ↔
      Fails tokens tier room s.position s.operators stop t.position t.operators ∧ t.depth = s.depth := by
  constructor
  · intro h
    have houtcome := outcome tokens room tier s hs
    rw [h] at houtcome
    obtain ⟨q, m, fails, rfl⟩ := houtcome
    exact ⟨fails, rfl⟩
  · rintro ⟨fails, hdepth⟩
    rw [fails.run s.depth hs, ← hdepth]

/-- A call stops where reading a sum does. -/
theorem parse_of_fails {s : Progress} {q m : Nat} (hs : s.depth = 0)
    (h : Fails tokens .sum maxDepth s.position s.operators stop q m) : parse tokens s = (.error stop, ⟨q, 0, m⟩) := by
  rw [parse_eq, run_expression, h.run s.depth (by omega), hs]

end PropertyExpr.Expr.Parser
