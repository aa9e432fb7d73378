import PropertyExpr.Proofs.ParserStops
/-!
# Rows without an end token

Past the end of a row its last token stands for every position, so a closing parenthesis may be read there as
often as one is needed. Only one message asks for the token before the position by its index: that a negated
expression is out of range. `returns_iff` says which calls that makes overrun the row: those that come to a
minus sign before the least integer in parentheses some of which are closed behind the row. All other calls, of
which there may be any number on one parser, return a tree or an error.

A row with an end token is never overrun (`not_overruns_of_blockEnd`), nor is one that ends with anything but a
closing parenthesis (`Overruns.rightParen_of_back`).
-/
namespace PropertyExpr.Expr.Parser

variable {tokens : Array Token} {tier : Tier} {room room' p q n m k : Nat} {ks pre : List Token.Kind} {e : Expr}
  {stop : Stop} {cause : SyntaxError.Cause} {start : Location}

/-! ## The least integer -/

/-- The least integer in `m` parentheses. -/
def leastInteger (m : Nat) : List Token.Kind :=
  List.replicate m .leftParen ++ ([.minus, .integer 9223372036854775808] ++ List.replicate m .rightParen)

theorem leastInteger_succ (m : Nat) : leastInteger (m + 1) = .leftParen :: (leastInteger m ++ [.rightParen]) := by
  simp [leastInteger, List.replicate_succ, ← List.replicate_succ']

/-- Nothing but the least integer in parentheses is read as it. -/
theorem eq_leastInteger (h : Derives tier room ks (.number Int64.minValue)) :
    ∃ m, m ≤ room ∧ ks = leastInteger m := by
  generalize he : Expr.number Int64.minValue = e at h
  induction h with
  | integer value =>
    obtain rfl := Expr.number.inj he
    rw [Int64.toInt_minValue] at value
    omega
  | paren _ ih =>
    obtain ⟨m, hm, rfl⟩ := ih he
    exact ⟨m + 1, by omega, (leastInteger_succ m).symm⟩
  | @signedInteger _ n _ value =>
    obtain rfl := Expr.number.inj he
    rw [Int64.toInt_minValue] at value
    obtain rfl : n = 9223372036854775808 := UInt64.toNat_inj.1 (by simp; omega)
    exact ⟨0, by omega, rfl⟩
  | @negatedNumber _ _ i _ _ _ value =>
    obtain rfl := Expr.number.inj he
    have upper := i.toInt_lt
    rw [Int64.toInt_minValue] at value
    omega
  | single _ _ ih => exact ih he
  | _ => cases he

theorem derives_leastInteger : ∀ (m room : Nat), m ≤ room →
    Derives .factor room (leastInteger m) (.number Int64.minValue)
  | 0, _, _ => .signedInteger (by decide)
  | m + 1, room + 1, h => by
    rw [leastInteger_succ]
    exact .paren (.single .sum (.single .product (derives_leastInteger m room (by omega))))

theorem leastInteger_ne_integer (m : Nat) (v : UInt64) : (leastInteger m).head? ≠ some (.integer v) := by
  cases m <;> simp [leastInteger, List.replicate_succ]

/-! ## What stands before a factor -/

/-- `Opens tier room pre room' k`: reading a `tier` comes, behind `pre`, to a factor that has `room'` levels left,
when `k` operators have been built. -/
inductive Opens : Tier → (room : Nat) → List Token.Kind → (room' : Nat) → (k : Nat) → Prop where
  | here {room : Nat} : Opens .factor room [] room 0
  | sign {room room' k : Nat} {pre : List Token.Kind} (inner : Opens .factor room pre room' k) :
      Opens .factor (room + 1) (.minus :: pre) room' k
  | paren {room room' k : Nat} {pre : List Token.Kind} (inner : Opens .sum room pre room' k) :
      Opens .factor (room + 1) (.leftParen :: pre) room' k
  | first {tier below : Tier} {room room' k : Nat}
      {pre : List Token.Kind} (above : tier.Over below) (inner : Opens below room pre room' k) :
      Opens tier room pre room' k
  | second {tier below : Tier} {room room' k : Nat}
      {ks pre : List Token.Kind} {o : Token.Kind} {op : Operator} {left : Expr} (above : tier.Over below)
      (derived : Derives tier room ks left) (operator : tier.Operates o op)
      (inner : Opens below room pre room' k) :
      Opens tier room (ks ++ o :: pre) room' (left.operatorCount + k)

theorem Opens.head_ne_integer (h : Opens .factor room pre room' k) (v : UInt64) :
    pre.head? ≠ some (.integer v) := by
  cases h with
  | first above | second above => cases above
  | _ => simp

/-- How the factor fails is how all around it fails. -/
theorem Opens.fails (h : Opens tier room pre room' k) (charged : Chargeable n k) (reads : Reads tokens p pre)
    (hi : ∀ v, kindAt tokens (p + pre.length) ≠ .integer v)
    (fails : Fails tokens .factor room' (p + pre.length) (n + k) stop q m) :
    Fails tokens tier room p n stop q m := by
  induction h generalizing p n with
  | here => exact fails
  | @sign room room' k pre inner ih =>
    have hlength : p + (Token.Kind.minus :: pre).length = p + 1 + pre.length := by
      simp only [List.length_cons]
      omega
    rw [hlength] at hi fails
    refine .behindSign reads.1 (fun v hv => ?_) (ih charged reads.2 hi fails)
    cases pre with
    | nil => exact hi v hv
    | cons o pre => exact inner.head_ne_integer v (congrArg some (reads.2.1.symm.trans hv))
  | @paren room room' k pre inner ih =>
    have hlength : p + (Token.Kind.leftParen :: pre).length = p + 1 + pre.length := by
      simp only [List.length_cons]
      omega
    rw [hlength] at hi fails
    exact .inParen reads.1 (ih charged reads.2 hi fails)
  | first above _ ih => exact .first above (ih charged reads hi fails)
  | @second tier below room room' k ks pre o op left above derived operator inner ih =>
    have hlength : p + (ks ++ o :: pre).length = p + ks.length + 1 + pre.length := by
      simp only [List.length_append, List.length_cons]
      omega
    rw [hlength, ← Nat.add_assoc] at fails
    rw [hlength] at hi
    obtain ⟨charged, charged'⟩ := chargeable_add.1 charged
    obtain ⟨reads, ho, reads'⟩ := reads_append.1 reads
    exact .second above (reads_append.2 ⟨reads, ho, trivial⟩) derived operator charged
      (ih charged' reads' hi fails)

/-! ## Overruns -/

/-- Reading a `tier` from `p` on comes to a minus sign before the least integer in parentheses that end behind
the row. -/
def Overruns (tokens : Array Token) (tier : Tier) (room p n : Nat) : Prop :=
  ∃ pre room' k m, Opens tier room pre room' k ∧ Chargeable n k ∧ m < room' ∧
    Reads tokens p (pre ++ .minus :: leastInteger m) ∧ tokens.size < p + (pre ++ .minus :: leastInteger m).length

theorem negationOverflow_eq_overrun_iff : (∃ cause start, negationOverflow tokens p (q + 1) = .overrun cause start) ↔
    tokens.size ≤ q := by
  simp only [negationOverflow, previousAt, Nat.add_one_ne_zero, if_false, Nat.add_sub_cancel]
  cases h : tokens[q]? with
  | none => simpa using h
  | some t => simpa using (Array.getElem?_eq_some_iff.1 h).1

theorem TailFails.ne_overrun (h : TailFails tokens p stop q) : stop ≠ .overrun cause start := by
  cases h <;> simp [unexpectedAt, overflowAt, stopAt]

theorem Fails.overruns (h : Fails tokens tier room p n (.overrun cause start) q m) :
    Overruns tokens tier room p n := by
  generalize hstop : Stop.overrun cause start = stop at h
  induction h with
  | tail _ ht => exact absurd hstop.symm ht.ne_overrun
  | @inParen room p n q m stop h _ ih =>
    obtain ⟨pre, room', k, m, opens, charged, hm, reads, hsize⟩ := ih hstop
    refine ⟨.leftParen :: pre, room', k, m, .paren opens, charged, hm, ⟨h, reads⟩, ?_⟩
    simpa [Nat.add_assoc, Nat.add_comm 1] using hsize
  | @behindSign room p n q m stop h _ _ ih =>
    obtain ⟨pre, room', k, m, opens, charged, hm, reads, hsize⟩ := ih hstop
    refine ⟨.minus :: pre, room', k, m, .sign opens, charged, hm, ⟨h, reads⟩, ?_⟩
    simpa [Nat.add_assoc, Nat.add_comm 1] using hsize
  | @negation room p n ks h _ operand =>
    obtain ⟨m, hm, rfl⟩ := eq_leastInteger operand
    have hstop' : negationOverflow tokens p (p + (leastInteger m).length + 1) = .overrun cause start := by
      rw [hstop, Nat.add_right_comm]
    have hsize := negationOverflow_eq_overrun_iff.1 ⟨_, _, hstop'⟩
    refine ⟨[], room + 1, 0, m, .here, chargeable_zero n, by omega, h, ?_⟩
    simp only [List.nil_append, List.length_cons]
    omega
  | first above _ ih =>
    obtain ⟨pre, room', k, m, opens, charged, hm, reads, hsize⟩ := ih hstop
    exact ⟨pre, room', k, m, .first above opens, charged, hm, reads, hsize⟩
  | @second tier below room p n q m stop ks o op left above h derived operator charged _ ih =>
    obtain ⟨pre, room', k, m, opens, charged', hm, reads', hsize⟩ := ih hstop
    obtain ⟨reads, ho, -⟩ := reads_append.1 h
    refine ⟨ks ++ o :: pre, room', left.operatorCount + k, m, .second above derived operator opens,
      chargeable_add.2 ⟨charged, charged'⟩, hm, ?_, ?_⟩
    · rw [List.append_assoc, List.cons_append, reads_append]
      exact ⟨reads, ho, reads'⟩
    · simp only [List.length_append, List.length_cons] at hsize ⊢
      omega
  | _ => simp [unexpectedAt, overflowAt, stopAt] at hstop

theorem Overruns.fails (h : Overruns tokens tier room p n) :
    ∃ cause start q m, Fails tokens tier room p n (.overrun cause start) q m := by
  obtain ⟨pre, room', k, m, opens, charged, hm, reads, hsize⟩ := h
  obtain ⟨room', rfl⟩ : ∃ r, room' = r + 1 := ⟨room' - 1, by omega⟩
  obtain ⟨reads, reads'⟩ := reads_append.1 reads
  have hi (v : UInt64) : kindAt tokens (p + pre.length + 1) ≠ .integer v := by
    cases h : leastInteger m with
    | nil => simp [leastInteger] at h
    | cons o l =>
      have ho := leastInteger_ne_integer m v
      rw [h] at ho reads'
      exact fun hv => ho (congrArg some (reads'.2.1.symm.trans hv))
  have hsize' : tokens.size ≤ p + pre.length + (leastInteger m).length := by
    simp only [List.length_append, List.length_cons] at hsize
    omega
  obtain ⟨cause, start, hstop⟩ := negationOverflow_eq_overrun_iff (p := p + pre.length).2 hsize'
  rw [Nat.add_right_comm] at hstop
  have hnegation : Fails tokens .factor (room' + 1) (p + pre.length) (n + k) _ _ _ :=
    .negation reads' hi (derives_leastInteger m room' (by omega))
  rw [hstop] at hnegation
  exact ⟨cause, start, _, _, opens.fails charged reads (by simp [reads'.1]) hnegation⟩

/-! ## Calls one after the other -/

/-- Where `calls` calls on a fresh parser leave it. -/
def progressAfter (tokens : Array Token) : (calls : Nat) → Progress
  | 0 => .start
  | calls + 1 => (parse tokens (progressAfter tokens calls)).2

/-- A call leaves no level open. -/
theorem depth_progressAfter (tokens : Array Token) (calls : Nat) : (progressAfter tokens calls).depth = 0 := by
  induction calls with
  | zero => rfl
  | succ calls ih =>
    have hends := callEnds tokens ih
    rw [progressAfter]
    generalize parse tokens (progressAfter tokens calls) = call at hends
    cases hends <;> exact ih

/-- **When a call returns**, the first on a parser or any later one: it gives a tree or an error exactly if it does
not come to a negation that ends behind the row. -/
theorem returns_iff (tokens : Array Token) (calls : Nat) :
    (∃ e, (parse tokens (progressAfter tokens calls)).1 = .ok e) ∨
      (∃ error, (parse tokens (progressAfter tokens calls)).1 = .error (.refused error)) ↔
    ¬ Overruns tokens .sum maxDepth (progressAfter tokens calls).position (progressAfter tokens calls).operators := by
  have hdepth := depth_progressAfter tokens calls
  generalize progressAfter tokens calls = s at hdepth
  constructor
  · intro hreturns hoverruns
    obtain ⟨cause, start, q, m, fails⟩ := hoverruns.fails
    rw [parse_of_fails hdepth fails] at hreturns
    simp at hreturns
  · intro hnot
    have hends := callEnds tokens hdepth
    generalize parse tokens s = call at hends
    cases hends with
    | accepted => exact .inl ⟨_, rfl⟩
    | unfinished => exact .inr ⟨_, rfl⟩
    | @failed stop q m fails =>
      cases stop with
      | refused error => exact .inr ⟨error, rfl⟩
      | overrun cause start => exact absurd fails.overruns hnot

/-- `-((-9223372036854775808)`, where one parenthesis is not closed and no end token follows. -/
def unclosedRow : Array Token :=
  ([.minus, .leftParen, .leftParen, .minus, .integer 9223372036854775808, .rightParen].map fun kind =>
    (⟨kind, .origin⟩ : Token)).toArray

theorem overrun_of_unclosedRow :
    unclosedRow ≠ #[] ∧ ∃ cause start, (parse unclosedRow (progressAfter unclosedRow 0)).1 =
      .error (.overrun cause start) := by
  have hoverruns : Overruns unclosedRow .sum maxDepth 0 0 :=
    ⟨[], maxDepth, 0, 2, .first .sum (.first .product .here), chargeable_zero 0, by decide,
      ⟨rfl, rfl, rfl, rfl, rfl, rfl, rfl, trivial⟩, by decide⟩
  obtain ⟨cause, start, q, m, fails⟩ := hoverruns.fails
  exact ⟨by decide, cause, start, by rw [progressAfter, parse_of_fails rfl fails]⟩

/-! ## Rows that are not overrun -/

/-- Between `p` and `q` no token is the end token. -/
def Passes (tokens : Array Token) (p q : Nat) : Prop := p ≤ q ∧ ∀ r, p ≤ r → r < q → kindAt tokens r ≠ .blockEnd

theorem Passes.refl (tokens : Array Token) (p : Nat) : Passes tokens p p := ⟨Nat.le_refl p, by omega⟩

theorem Passes.trans (h : Passes tokens p q) (h' : Passes tokens q n) : Passes tokens p n := by
  refine ⟨Nat.le_trans h.1 h'.1, fun r hp hn => ?_⟩
  by_cases hr : r < q
  · exact h.2 r hp hr
  · exact h'.2 r (by omega) hn

theorem passes_of_reads (reads : Reads tokens p ks) (h : .blockEnd ∉ ks) : Passes tokens p (p + ks.length) := by
  induction ks generalizing p with
  | nil => exact .refl tokens p
  | cons o ks ih =>
    simp only [List.mem_cons, not_or] at h
    have hrest := ih reads.2 h.2
    rw [Nat.add_assoc, Nat.add_comm 1] at hrest
    refine Passes.trans ⟨Nat.le_add_right p 1, fun r hp hr => ?_⟩ hrest
    obtain rfl : r = p := by omega
    rw [reads.1]
    exact fun e => h.1 e.symm

theorem passes_succ (h : kindAt tokens p ≠ .blockEnd) : Passes tokens p (p + 1) := by
  have reads : Reads tokens p [kindAt tokens p] := ⟨rfl, trivial⟩
  exact passes_of_reads reads (by simpa using h.symm)

theorem TailFails.passes (h : TailFails tokens p stop q) : Passes tokens p q := by
  cases h with
  | opening => exact .refl tokens p
  | zero h | overflow h => exact passes_succ (by simp [h.1])
  | rank h | closing h | dot h | field h => exact passes_of_reads h (by simp)

/-- A run that stops has not passed the end token. -/
theorem Fails.passes (h : Fails tokens tier room p n stop q m) : Passes tokens p q := by
  induction h with
  | other | integer => exact .refl tokens _
  | tail h ht => exact (passes_succ (by simp [h])).trans ht.passes
  | parenTooDeep h | signTooDeep h => exact passes_succ (by simp [h])
  | inParen h _ ih => exact (passes_succ (by simp [h])).trans ih
  | behindSign h _ _ ih => exact (passes_succ (by simp [h])).trans ih
  | signedInteger h => exact passes_of_reads h (by simp)
  | unclosed h inner | negation h _ inner | chargeSign h _ inner =>
    exact (passes_succ (by simp [h.1])).trans (passes_of_reads h.2 inner.blockEnd_notMem)
  | first _ _ ih => exact ih
  | second above h derived operator _ _ ih =>
    obtain ⟨reads, hk, -⟩ := reads_append.1 h
    have hoperator := passes_succ (hk ▸ operator.ne_blockEnd)
    exact ((passes_of_reads reads derived.blockEnd_notMem).trans hoperator).trans ih
  | chargeOperator above h derived operator operand =>
    obtain ⟨reads, hk, reads'⟩ := reads_append.1 h
    have hoperator := passes_succ (hk ▸ operator.ne_blockEnd)
    exact ((passes_of_reads reads derived.blockEnd_notMem).trans hoperator).trans
      (passes_of_reads reads' operand.blockEnd_notMem)

theorem Opens.blockEnd_notMem (h : Opens tier room pre room' k) : .blockEnd ∉ pre := by
  induction h with
  | here => simp
  | sign _ ih | paren _ ih => simp [ih]
  | first _ _ ih => exact ih
  | second above derived operator _ ih =>
    simp [ih, derived.blockEnd_notMem, operator.ne_blockEnd.symm]

/-- No call passes an end token. -/
theorem position_progressAfter_le {i : Nat} (hi : kindAt tokens i = .blockEnd) (calls : Nat) :
    (progressAfter tokens calls).position ≤ i := by
  induction calls with
  | zero => exact Nat.zero_le i
  | succ calls ih =>
    have hle {q : Nat} (h : Passes tokens (progressAfter tokens calls).position q) : q ≤ i := by
      refine Nat.le_of_not_lt fun hlt => ?_
      exact h.2 i ih hlt hi
    have hends := callEnds tokens (depth_progressAfter tokens calls)
    rw [progressAfter]
    generalize parse tokens (progressAfter tokens calls) = call at hends
    cases hends with
    | accepted derived reads | unfinished derived reads => exact hle (passes_of_reads reads derived.blockEnd_notMem)
    | failed fails => exact hle fails.passes

/-- **With an end token** anywhere in the row, no call overruns it. -/
theorem not_overruns_of_blockEnd {t : Token} (ht : t ∈ tokens) (hk : t.kind = .blockEnd) (calls : Nat) :
    ¬ Overruns tokens .sum maxDepth (progressAfter tokens calls).position (progressAfter tokens calls).operators := by
  rintro ⟨pre, room', k, m, opens, -, -, reads, hsize⟩
  obtain ⟨i, hi, rfl⟩ := Array.mem_iff_getElem.1 ht
  have hend : kindAt tokens i = .blockEnd := by simpa [kindAt, tokenAt, hi] using hk
  have hpasses := passes_of_reads reads (by simp [opens.blockEnd_notMem, leastInteger])
  exact hpasses.2 i (position_progressAfter_le hend calls) (by omega) hend

/-- Behind the row its last token is read. -/
theorem kindAt_of_size_le {t : Token} (ht : tokens.back? = some t) (h : tokens.size ≤ p + 1) :
    kindAt tokens p = t.kind := by
  rw [kindAt, tokenAt, ht]
  rcases Nat.lt_or_ge p tokens.size with hp | hp
  · rw [Array.back?_eq_getElem?, show tokens.size - 1 = p by omega] at ht
    simp [ht]
  · simp [hp]

/-- **What is overrun ends with a closing parenthesis.** -/
theorem Overruns.rightParen_of_back {t : Token} (h : Overruns tokens tier room p n) (ht : tokens.back? = some t) :
    t.kind = .rightParen := by
  obtain ⟨pre, room', k, m, -, -, -, reads, hsize⟩ := h
  simp only [List.length_append, List.length_cons] at hsize
  have reads := (reads_append.1 reads).2
  cases m with
  | zero =>
    -- The sign and the integer would both be the last token.
    obtain ⟨-, hminus, hinteger, -⟩ := reads
    have hlength : (leastInteger 0).length = 2 := rfl
    rw [kindAt_of_size_le ht (by omega)] at hminus hinteger
    cases hminus.symm.trans hinteger
  | succ m =>
    rw [leastInteger_succ] at reads hsize
    simp only [List.length_append, List.length_cons, List.length_nil] at hsize
    have hlast := (reads_append.1 reads.2.2).2.1
    rwa [kindAt_of_size_le ht (by omega)] at hlast

end PropertyExpr.Expr.Parser
