import PropertyExpr.Proofs.Unambiguous
/-!
# The parser is the grammar

A run accepts exactly what the grammar derives within the limits (`parse_eq_ok_iff`). That it accepts only that
is `outcome`; that it accepts all of it is `accepts`, by induction over factors and the operands of chains. The
grammar itself is unambiguous, with or without limits (`Derives.unique`).
-/
namespace PropertyExpr.Expr

namespace Parser

variable {tokens : Array Token} {tier below : Tier} {room : Nat}
  {ks : List Token.Kind} {left e : Expr}

/-! ## Everything derived is accepted -/

/-- A run for the tier reads `ks` as `e`, wherever they stand, if no operator goes on behind them and those of `e`
can be charged. -/
def Accepts (tokens : Array Token) (tier : Tier) (room : Nat) (ks : List Token.Kind) (e : Expr) : Prop :=
  ∀ s : Progress, s.depth + room = maxDepth → Reads tokens s.position ks →
    tier.Closed (kindAt tokens (s.position + ks.length)) → Chargeable s.operators e.operatorCount →
    (runAt tokens tier room).run s = .ok e (s.after ks e)

/-- What stands before the links of a chain ends there. -/
theorem closed_of_links {Operand : List Token.Kind → Expr → Prop} {position : Nat}
    (above : tier.Over below) (links : Links tier Operand left ks e)
    (reads : Reads tokens position ks) (closed : below.Closed (kindAt tokens (position + ks.length))) :
    below.Closed (kindAt tokens position) := by
  cases links with
  | done => exact closed
  | link operator => exact above.closed_of_operator (reads.1 ▸ operator)

/-- The links of a chain are read one after the other, whatever comes behind them. -/
theorem run_chain_of_links (allowance : Nat) (above : tier.Over below)
    (links : Links tier (Accepts tokens below room) left ks e)
    (enough : maxOperators ≤ allowance + left.operatorCount) (few : e.operatorCount ≤ maxOperators)
    (s : Progress) (hs : s.depth + room = maxDepth) (reads : Reads tokens s.position ks)
    (closed : below.Closed (kindAt tokens (s.position + ks.length)))
    (charged : Chargeable s.operators (e.operatorCount - left.operatorCount)) :
    ∃ allowance', maxOperators ≤ allowance' + e.operatorCount ∧
      (chain tokens (operator? tier) (runAt tokens below room) allowance left).run s =
        (chain tokens (operator? tier) (runAt tokens below room) allowance' e).run
          ⟨s.position + ks.length, s.depth, s.operators + (e.operatorCount - left.operatorCount)⟩ := by
  induction links generalizing s allowance with
  | done => exact ⟨allowance, enough, by simp⟩
  | @link left right e k op ks ks' operator operand behind ih =>
    obtain ⟨rfl, reads⟩ := reads
    obtain ⟨reads, reads'⟩ := reads_append.1 reads
    have hle := behind.operatorCount_le
    simp only [Expr.operatorCount] at hle ih
    obtain ⟨allowance, rfl⟩ : ∃ n, allowance = n + 1 := ⟨allowance - 1, by omega⟩
    have hend : s.position + (kindAt tokens s.position :: (ks ++ ks')).length =
        s.position + 1 + ks.length + ks'.length := by
      simp only [List.length_cons, List.length_append]
      omega
    rw [hend] at closed ⊢
    have hsplit : e.operatorCount - left.operatorCount =
        right.operatorCount + (1 + (e.operatorCount - (left.operatorCount + right.operatorCount + 1))) := by omega
    rw [hsplit, chargeable_add, chargeable_add, chargeable_one] at charged
    obtain ⟨allowance', enough', hrest⟩ := ih allowance (by omega) few
      ⟨s.position + 1 + ks.length, s.depth, s.operators + right.operatorCount + 1⟩ hs reads' closed charged.2.2
    refine ⟨allowance', enough', ?_⟩
    rw [run_chain_some operator,
      operand { s with position := s.position + 1 } hs reads (closed_of_links above behind reads' closed) charged.1]
    refine (if_pos charged.2.1).trans (hrest.trans ?_)
    rw [hsplit]
    simp [Nat.add_assoc]

theorem accepts_paren (inner : Accepts tokens .sum room ks e) :
    Accepts tokens .factor (room + 1) (.leftParen :: (ks ++ [.rightParen])) e := by
  intro s hs reads _ charged
  obtain ⟨hk, reads, hr, -⟩ := by simpa only [reads_cons, reads_append] using reads
  have hrun := inner ⟨s.position + 1, s.depth + 1, s.operators⟩ (by simp only; omega) reads
    (by rw [hr]; exact Tier.sum_closed_rightParen) charged
  rw [runAt_factor_succ, run_factor_leftParen hk (by omega), hrun]
  refine (if_pos hr).trans ?_
  simp [Progress.after, Nat.add_assoc, Nat.add_comm 1]

/-- Behind a sign the operand is read one level deeper, and then the sign is applied. -/
theorem run_sign_of_accepts (operand : Accepts tokens .factor room ks e) (s : Progress)
    (hs : s.depth + (room + 1) = maxDepth) (reads : Reads tokens s.position (.minus :: ks))
    (hi : ∀ n, kindAt tokens (s.position + 1) ≠ .integer n) (charged : Chargeable s.operators e.operatorCount) :
    (runAt tokens .factor (room + 1)).run s =
      negated tokens s.position e ⟨s.position + 1 + ks.length, s.depth, s.operators + e.operatorCount⟩ := by
  have hrun := operand ⟨s.position + 1, s.depth + 1, s.operators⟩ (by simp only; omega) reads.2 trivial charged
  rw [runAt_factor_succ, run_factor_minus_other reads.1 hi (by omega), hrun]
  rfl

/-- What a factor starts with is no integer if the factor is none. -/
theorem ne_integer_of_reads {position : Nat} (derived : Derives .factor room ks e)
    (reads : Reads tokens position ks) (h : ∀ n, ks = [.integer n] → ∀ i, e ≠ .number i) (n : UInt64) :
    kindAt tokens position ≠ .integer n := by
  intro hn
  obtain ⟨k, ks', rfl⟩ := List.exists_cons_of_ne_nil derived.ne_nil
  obtain rfl : k = .integer n := reads.1.symm.trans hn
  exact derived.head_ne_integer h (List.append_nil _)

theorem accepts_negatedNumber {m i : Int64} (operand : Accepts tokens .factor room ks (.number m))
    (notInteger : ∀ n, ks ≠ [.integer n]) (derived : Derives .factor room ks (.number m))
    (value : i.toInt = -m.toInt) : Accepts tokens .factor (room + 1) (.minus :: ks) (.number i) := by
  intro s hs reads _ charged
  have hi := ne_integer_of_reads derived reads.2 (fun n hks => absurd hks (notInteger n))
  rw [run_sign_of_accepts operand s hs reads hi charged, negated, Number.int64?_eq_some_iff.2 value]
  simp [Progress.after, Nat.add_assoc, Nat.add_comm 1, Expr.operatorCount]

theorem accepts_negated (operand : Accepts tokens .factor room ks e) (derived : Derives .factor room ks e)
    (notNumber : ∀ m, e ≠ .number m) :
    Accepts tokens .factor (room + 1) (.minus :: ks) (.binary .sub (.number 0) e) := by
  intro s hs reads _ charged
  have hi := ne_integer_of_reads derived reads.2 (fun _ _ => notNumber)
  simp only [Expr.operatorCount, Nat.zero_add, chargeable_add, chargeable_one] at charged
  rw [run_sign_of_accepts operand s hs reads hi charged.1, negated_of_ne_number notNumber]
  refine (if_pos charged.2).trans ?_
  simp [Progress.after, Nat.add_assoc, Nat.add_comm 1, Expr.operatorCount]

/-- A chain is read up to any place where its last operand ends; there it may go on. -/
theorem run_operands {ks' : List Token.Kind} (above : tier.Over below)
    (first : Accepts tokens below room ks left) (links : Links tier (Accepts tokens below room) left ks' e)
    (s : Progress) (hs : s.depth + room = maxDepth) (reads : Reads tokens s.position (ks ++ ks'))
    (closed : below.Closed (kindAt tokens (s.position + (ks ++ ks').length)))
    (charged : Chargeable s.operators e.operatorCount) :
    ∃ allowance, maxOperators ≤ allowance + e.operatorCount ∧ (runAt tokens tier room).run s =
      (chain tokens (operator? tier) (runAt tokens below room) allowance e).run (s.after (ks ++ ks') e) := by
  obtain ⟨reads, reads'⟩ := reads_append.1 reads
  rw [List.length_append, ← Nat.add_assoc] at closed
  have hsplit : e.operatorCount = left.operatorCount + (e.operatorCount - left.operatorCount) := by
    have := links.operatorCount_le
    omega
  have few := charged.le
  rw [hsplit, chargeable_add] at charged
  rw [runAt_eq_chain above, run_bind_ok (first s hs reads (closed_of_links above links reads' closed) charged.1)]
  obtain ⟨allowance, enough, hrun⟩ := run_chain_of_links maxOperators above links (by omega) few
    (s.after ks left) hs reads' closed charged.2
  refine ⟨allowance, enough, hrun.trans ?_⟩
  simp only [Progress.after, List.length_append, Nat.add_assoc, ← hsplit]

theorem accepts_operands {ks' : List Token.Kind} (above : tier.Over below)
    (first : Accepts tokens below room ks left) (links : Links tier (Accepts tokens below room) left ks' e) :
    Accepts tokens tier room (ks ++ ks') e := by
  intro s hs reads closed charged
  obtain ⟨hbelow, hnone⟩ := (above.closed_iff _).1 closed
  obtain ⟨allowance, -, hrun⟩ := run_operands above first links s hs reads hbelow charged
  rw [hrun, run_chain_none hnone]

/-- **Everything derived is accepted**, wherever it stands. -/
theorem accepts (h : Derives tier room ks e) : Accepts tokens tier room ks e := by
  refine Derives.byOperands (motive := Accepts tokens) ?_ ?_ ?_ accepts_paren ?_ accepts_negatedNumber
    accepts_negated accepts_operands h
  · intro room n i value s hs reads _ _
    rw [runAt_factor, run_factor_integer reads.1, Number.int64?_eq_some_iff.2 value]
    rfl
  · intro room text s hs reads _ _
    rw [runAt_factor, run_factor_string reads.1]
    rfl
  · intro room name field n rank value positive s hs reads _ _
    rw [runAt_factor, run_factor_ident reads.1, run_referenceTail reads.2 value positive]
    rfl
  · intro room n i value s hs reads _ _
    rw [runAt_factor, run_factor_minus_integer reads.1 reads.2.1, Number.int64?_eq_some_iff.2 value]
    rfl

/-! ## Whole runs -/

/-- A run accepts what it derives from its position on, if the end token comes next. -/
theorem parse_fst_eq_ok_iff {s : Progress} (hs : s.depth = 0) :
    (parse tokens s).1 = .ok e ↔ ∃ ks, Derives .sum maxDepth ks e ∧ Reads tokens s.position ks ∧
      kindAt tokens (s.position + ks.length) = .blockEnd ∧ Chargeable s.operators e.operatorCount := by
  constructor
  · generalize hcall : parse tokens s = call
    have hends : CallEnds tokens s call := hcall ▸ callEnds tokens hs
    cases hends with
    | accepted derived reads hend charged =>
      rintro ⟨⟩
      exact ⟨_, derived, reads, hend, charged⟩
    | unfinished | failed => rintro ⟨⟩
  · rintro ⟨ks, derived, reads, hend, charged⟩
    rw [parse_eq, run_expression, accepts derived s (by omega) reads (by rw [hend]; exact Tier.sum_closed_blockEnd)
      charged]
    have hend : kindAt tokens (s.after ks e).position = .blockEnd := hend
    simp only [if_pos hend]

/-- What a run meets in a row that ends with its only end token. -/
theorem reads_row_iff (pre : List Token) {body : List Token} {last : Token} (hbody : ∀ t ∈ body, t.kind ≠ .blockEnd)
    (hlast : last.kind = .blockEnd) {ks : List Token.Kind} (hks : .blockEnd ∉ ks) :
    Reads (pre ++ (body ++ [last])).toArray pre.length ks ∧
      kindAt (pre ++ (body ++ [last])).toArray (pre.length + ks.length) = .blockEnd ↔
    ks = body.map Token.kind := by
  have hkind (pre rest : List Token) (t : Token) : kindAt (pre ++ t :: rest).toArray pre.length = t.kind := by
    simp [kindAt, tokenAt]
  induction body generalizing pre ks with
  | nil =>
    have hend := hkind pre [] last
    cases ks with
    | nil => simpa using hend.trans hlast
    | cons k ks =>
      simp only [reads_cons, List.nil_append, hend, hlast]
      simp only [List.mem_cons, not_or] at hks
      simp [hks.1]
  | cons t body ih =>
    have hfront := hkind pre (body ++ [last]) t
    cases ks with
    | nil => simpa [hfront] using hbody t (by simp)
    | cons k ks =>
      simp only [List.mem_cons, not_or] at hks
      have hrest := ih (pre ++ [t]) (fun u hu => hbody u (List.mem_cons_of_mem _ hu)) hks.2
      simp only [List.length_append, List.length_singleton, List.append_assoc, List.singleton_append] at hrest
      simp only [reads_cons, List.cons_append, hfront, List.length_cons, List.map_cons, List.cons.injEq, and_assoc]
      rw [Nat.add_comm ks.length, ← Nat.add_assoc]
      exact and_congr eq_comm hrest

/-- A fresh parser accepts a row that ends with its only end token if the tokens before derive the tree. -/
theorem parse_row_eq_ok_iff {body : List Token} {last : Token} (hbody : ∀ t ∈ body, t.kind ≠ .blockEnd)
    (hlast : last.kind = .blockEnd) (e : Expr) :
    (parse (body ++ [last]).toArray .start).1 = .ok e ↔
      Derives .sum maxDepth (body.map Token.kind) e ∧ e.operatorCount ≤ maxOperators := by
  have hrow (ks : List Token.Kind) (hks : .blockEnd ∉ ks) := reads_row_iff [] hbody hlast hks
  simp only [List.nil_append, List.length_nil] at hrow
  rw [parse_fst_eq_ok_iff rfl]
  constructor
  · rintro ⟨ks, derived, reads, hend, charged⟩
    obtain rfl := (hrow ks derived.blockEnd_notMem).1 ⟨reads, hend⟩
    exact ⟨derived, charged.le⟩
  · rintro ⟨derived, hcount⟩
    obtain ⟨reads, hend⟩ := (hrow _ derived.blockEnd_notMem).2 rfl
    exact ⟨_, derived, reads, hend, .inr (by simpa [Progress.start] using hcount)⟩

/-- **The parser is the grammar**: a fresh parser accepts a row that ends with its only end token exactly if the
tokens before derive the tree within the limits, and no other tree is derived from them, be it beyond the limits. -/
theorem parse_eq_ok_iff {body : List Token} {last : Token} (hbody : ∀ t ∈ body, t.kind ≠ .blockEnd)
    (hlast : last.kind = .blockEnd) (e : Expr) :
    ((parse (body ++ [last]).toArray .start).1 = .ok e ↔
      Derives .sum maxDepth (body.map Token.kind) e ∧ e.operatorCount ≤ maxOperators) ∧
    ∀ room room' e₁ e₂, Derives .sum room (body.map Token.kind) e₁ →
      Derives .sum room' (body.map Token.kind) e₂ → e₁ = e₂ :=
  ⟨parse_row_eq_ok_iff hbody hlast e, fun _ _ _ _ h h' => h.unique h'⟩

theorem parse_negated_paren :
    (parse ([.minus, .leftParen, .integer 2, .rightParen].map (⟨·, .origin⟩) ++
      [⟨.blockEnd, .origin⟩] : List Token).toArray .start).1 = .ok (.number (-2)) :=
  (parse_eq_ok_iff (by decide) rfl _).1.2
    ⟨.single .sum (.single .product (.negatedNumber
      (.paren (.single .sum (.single .product (.integer (i := 2) (by decide))))) (by simp) (by decide))), by decide⟩

end Parser

end PropertyExpr.Expr
