import PropertyExpr.Proofs.ParserRuns
/-!
# Beginnings of expressions

`Phrase` is the documented grammar alone: what tokens a tier may have, whatever the values of integers are and however
many operators and levels there are. What derives a tree is a phrase (`Derives.phrase`), and a phrase whose integers
fit derives one where there is room enough (`Phrase.exists_derives`). `BreaksAt` says which token is the leftmost at
which a row stops being the beginning of an expression.

That tokens can be gone on with is shown by going on with them. That they cannot is shown by reading them from left to
right: `Awaits` is what has to come next, behind a phrase that is always an operator or an end (`Phrase.pass`), and
where nothing comes next that could, no phrase goes on.
-/
namespace PropertyExpr.Expr

/-- The tokens of a tier. -/
inductive Phrase : Tier → List Token.Kind → Prop where
  | integer {n : UInt64} : Phrase .factor [.integer n]
  | string {s : String} : Phrase .factor [.string s]
  | reference {name field : String} {rank : UInt64} :
      Phrase .factor [.ident name, .leftBracket, .integer rank, .rightBracket, .dot, .ident field]
  | paren {ks : List Token.Kind} (inner : Phrase .sum ks) : Phrase .factor (.leftParen :: (ks ++ [.rightParen]))
  | negated {ks : List Token.Kind} (operand : Phrase .factor ks) : Phrase .factor (.minus :: ks)
  | single {tier below : Tier} {ks : List Token.Kind}
      (above : tier.Over below) (operand : Phrase below ks) : Phrase tier ks
  | chain {tier below : Tier} {ks ks' : List Token.Kind}
      {k : Token.Kind} {op : Operator} (above : tier.Over below) (first : Phrase tier ks)
      (operator : tier.Operates k op) (second : Phrase below ks') : Phrase tier (ks ++ k :: ks')

/-- What derives a tree is a phrase. -/
theorem Derives.phrase {tier : Tier} {room : Nat} {ks : List Token.Kind} {e : Expr} (h : Derives tier room ks e) :
    Phrase tier ks := by
  induction h with
  | integer => exact .integer
  | string => exact .string
  | reference => exact .reference
  | paren _ ih => exact .paren ih
  | signedInteger => exact .negated .integer
  | negatedNumber _ _ _ ih | negated _ _ ih => exact .negated ih
  | single above _ ih => exact .single above ih
  | chain above _ operator _ ih ih' => exact .chain above ih operator ih'

theorem exists_int64 {n : UInt64} (h : n.toNat ≤ Int64.maxValue.toInt) : ∃ i : Int64, i.toInt = n.toNat := by
  rw [Int64.toInt_maxValue] at h
  exact ⟨Int64.ofInt n.toNat, Int64.toInt_ofInt_of_le (by omega) (by omega)⟩

/-- A minus sign makes a tree of any operand, unless it is the least integer. -/
theorem exists_derives_negated {ks : List Token.Kind} {e : Expr} {room : Nat}
    (hks : ∀ n, .integer n ∈ ks → n.toNat ≤ Int64.maxValue.toInt) (derived : ∀ r, room ≤ r → Derives .factor r ks e)
    (least : e ≠ .number Int64.minValue) :
    ∃ e', (∀ r, room + 1 ≤ r → Derives .factor r (.minus :: ks) e') ∧ e' ≠ .number Int64.minValue := by
  by_cases hinteger : ∃ n, ks = [.integer n]
  · obtain ⟨n, rfl⟩ := hinteger
    have hn := hks n (List.mem_singleton_self _)
    rw [Int64.toInt_maxValue] at hn
    have hvalue : (Int64.ofInt (-n.toNat)).toInt = -n.toNat :=
      Int64.toInt_ofInt_of_le (by omega) (by omega)
    refine ⟨_, fun r _ => .signedInteger hvalue, ?_⟩
    intro h
    rw [Expr.number.inj h, Int64.toInt_minValue] at hvalue
    omega
  have notInteger : ∀ n, ks ≠ [.integer n] := fun n hn => hinteger ⟨n, hn⟩
  have open_level {e' : Expr} (h : ∀ r, room ≤ r → Derives .factor (r + 1) (.minus :: ks) e') :
      ∀ r, room + 1 ≤ r → Derives .factor r (.minus :: ks) e' := by
    rintro (_ | r) hr
    · omega
    · exact h r (Nat.le_of_succ_le_succ hr)
  by_cases hnumber : ∃ m, e = .number m
  · obtain ⟨m, rfl⟩ := hnumber
    cases hi : Number.int64? (-m.toInt) with
    | none =>
      rw [Parser.eq_minValue_of_neg hi] at least
      exact absurd rfl least
    | some i =>
      have hvalue := Number.int64?_eq_some_iff.1 hi
      refine ⟨.number i, open_level fun r hr => .negatedNumber (derived r hr) notInteger hvalue, ?_⟩
      intro h
      have hm := m.toInt_lt
      rw [Expr.number.inj h, Int64.toInt_minValue] at hvalue
      omega
  · refine ⟨_, open_level fun r hr => .negated (derived r hr) fun m hm => hnumber ⟨m, hm⟩, ?_⟩
    exact Expr.noConfusion

/-- **The limits apart, a phrase is what derives a tree**: with room enough it does, if its integers are at least 1 and
in range. -/
theorem Phrase.exists_derives {tier : Tier} {ks : List Token.Kind} (h : Phrase tier ks)
    (hks : ∀ n, .integer n ∈ ks → 1 ≤ n.toNat ∧ n.toNat ≤ Int64.maxValue.toInt) :
    ∃ room e, (∀ r, room ≤ r → Derives tier r ks e) ∧ e ≠ .number Int64.minValue := by
  induction h with
  | @integer n =>
    obtain ⟨i, hi⟩ := exists_int64 (hks n (List.mem_singleton_self _)).2
    refine ⟨0, .number i, fun r _ => .integer hi, ?_⟩
    intro h
    rw [Expr.number.inj h, Int64.toInt_minValue] at hi
    omega
  | @string s => exact ⟨0, .string s, fun r _ => .string, Expr.noConfusion⟩
  | @reference name field rank =>
    obtain ⟨positive, hrank⟩ := hks rank (by simp)
    obtain ⟨i, hi⟩ := exists_int64 hrank
    exact ⟨0, _, fun r _ => .reference hi (by omega), Expr.noConfusion⟩
  | @paren ks _ ih =>
    obtain ⟨room, e, derived, least⟩ := ih fun n hn => hks n (by simp [hn])
    refine ⟨room + 1, e, ?_, least⟩
    rintro (_ | r) hr
    · omega
    · exact .paren (derived r (Nat.le_of_succ_le_succ hr))
  | @negated ks _ ih =>
    have hks' : ∀ n, .integer n ∈ ks → 1 ≤ n.toNat ∧ n.toNat ≤ Int64.maxValue.toInt := fun n hn =>
      hks n (List.mem_cons_of_mem _ hn)
    obtain ⟨room, e, derived, least⟩ := ih hks'
    exact ⟨room + 1, exists_derives_negated (fun n hn => (hks' n hn).2) derived least⟩
  | single above _ ih =>
    obtain ⟨room, e, derived, least⟩ := ih hks
    exact ⟨room, e, fun r hr => .single above (derived r hr), least⟩
  | chain above _ operator _ ih ih' =>
    obtain ⟨room, left, derived, -⟩ := ih fun n hn => hks n (List.mem_append_left _ hn)
    obtain ⟨room', right, derived', -⟩ := ih' fun n hn => hks n (List.mem_append_right _ (List.mem_cons_of_mem _ hn))
    refine ⟨max room room', _, fun r hr => .chain above (derived r ?_) operator (derived' r ?_), Expr.noConfusion⟩
    · omega
    · omega

/-! ## What comes next -/

/-- What has to come next behind the front of an expression, with so many parentheses open. -/
inductive Awaits where
  | operand (depth : Nat)
  /-- An operator, a closing parenthesis, or the end of the block. -/
  | operator (depth : Nat)
  | leftBracket (depth : Nat)
  | rank (depth : Nat)
  | rightBracket (depth : Nat)
  | dot (depth : Nat)
  | field (depth : Nat)
  | nothing
deriving DecidableEq, Repr

namespace Awaits

/-- What has to come next behind one more token, if it may come. -/
def step : Awaits → Token.Kind → Option Awaits
  | operand depth, .integer _ | operand depth, .string _ => some (operator depth)
  | operand depth, .ident _ => some (leftBracket depth)
  | operand depth, .minus => some (operand depth)
  | operand depth, .leftParen => some (operand (depth + 1))
  | operator depth, .plus | operator depth, .minus | operator depth, .star | operator depth, .slash =>
    some (operand depth)
  | operator (depth + 1), .rightParen => some (operator depth)
  | operator 0, .blockEnd => some nothing
  | leftBracket depth, .leftBracket => some (rank depth)
  | rank depth, .integer _ => some (rightBracket depth)
  | rightBracket depth, .rightBracket => some (dot depth)
  | dot depth, .dot => some (field depth)
  | field depth, .ident _ => some (operator depth)
  | _, _ => none

/-- What has to come next behind some more tokens, if they may come. -/
def pass (s : Awaits) (ks : List Token.Kind) : Option Awaits := ks.foldlM step s

theorem pass_cons (s : Awaits) (k : Token.Kind) (ks : List Token.Kind) :
    s.pass (k :: ks) = (s.step k).bind fun s' => s'.pass ks := List.foldlM_cons

theorem pass_append (s : Awaits) (ks ks' : List Token.Kind) :
    s.pass (ks ++ ks') = (s.pass ks).bind fun s' => s'.pass ks' := List.foldlM_append

/-- Behind tokens that may come, the others are looked at by themselves. -/
theorem pass_append_of_eq {s s' : Awaits} {ks : List Token.Kind} (h : s.pass ks = some s') (ks' : List Token.Kind) :
    s.pass (ks ++ ks') = s'.pass ks' := by
  rw [pass_append, h, Option.bind_some]

/-- An operator awaits an operand. -/
theorem step_operator {tier : Tier} {k : Token.Kind} {op : Operator} (h : tier.Operates k op) (depth : Nat) :
    (operator depth).step k = some (operand depth) := by
  cases h <;> rfl

/-- What comes where only one kind of token may, within a reference. -/
def Admits : Awaits → Token.Kind → Prop
  | leftBracket _, k => k = .leftBracket
  | rank _, k => ∃ n, k = .integer n
  | rightBracket _, k => k = .rightBracket
  | dot _, k => k = .dot
  | field _, k => ∃ name, k = .ident name
  | _, _ => True

theorem step_eq_none {s : Awaits} {k : Token.Kind} (h : ¬ s.Admits k) : s.step k = none := by
  cases s <;> cases k <;> simp_all [Admits, step]

end Awaits

/-- A phrase may stand where an operand is awaited, and nothing else needs to come behind it than behind an operand. -/
theorem Phrase.pass {tier : Tier} {ks : List Token.Kind} (h : Phrase tier ks) (depth : Nat) :
    (Awaits.operand depth).pass ks = some (.operator depth) := by
  induction h generalizing depth with
  | integer | string | reference => rfl
  | @paren ks _ ih =>
    change (Awaits.operand (depth + 1)).pass (ks ++ [.rightParen]) = _
    rw [Awaits.pass_append_of_eq (ih (depth + 1))]
    rfl
  | negated _ ih => exact ih depth
  | single _ _ ih => exact ih depth
  | chain _ _ operator _ ih ih' =>
    rw [Awaits.pass_append_of_eq (ih depth), Awaits.pass_cons, Awaits.step_operator operator]
    exact ih' depth

/-- The end of the block may come behind a whole expression. -/
theorem Phrase.pass_blockEnd {ks : List Token.Kind} (h : Phrase .sum ks) :
    (Awaits.operand 0).pass (ks ++ [.blockEnd]) = some .nothing := by
  rw [Awaits.pass_append_of_eq (h.pass 0)]
  rfl

/-- The end of the block belongs to no phrase. -/
theorem Phrase.blockEnd_notMem {tier : Tier} {ks : List Token.Kind} (h : Phrase tier ks) : .blockEnd ∉ ks := by
  induction h with
  | integer | string | reference => simp
  | paren _ ih | negated _ ih => simp [ih]
  | single _ _ ih => exact ih
  | chain _ _ operator _ ih ih' => simp [ih, ih', operator.ne_blockEnd.symm]

/-! ## Where an expression breaks off -/

/-- Some expression begins with the tokens. -/
def Viable (ks : List Token.Kind) : Prop := ∃ rest, Phrase .sum (ks ++ rest)

/-- A beginning of a beginning is one. -/
theorem Viable.take {row : List Token.Kind} {i j : Nat} (h : Viable (row.take j)) (hij : i ≤ j) :
    Viable (row.take i) := by
  obtain ⟨rest, hrest⟩ := h
  refine ⟨(row.take j).drop i ++ rest, ?_⟩
  have htake : (row.take j).take i = row.take i := by rw [List.take_take, Nat.min_eq_left hij]
  rwa [← List.append_assoc, ← htake, List.take_append_drop]

/-- Token `i` is the leftmost at which a row stops being the beginning of an expression. -/
structure BreaksAt (row : List Token.Kind) (i : Nat) : Prop where
  viable : Viable (row.take i)
  broken : ¬ Viable (row.take (i + 1))
  /-- The end of the block stops an expression that is not complete. -/
  incomplete : row[i]? = some .blockEnd → ¬ Phrase .sum (row.take i)
  leftmost : ∀ j, Viable (row.take j) ↔ j ≤ i

/-- The tokens `ks` can be gone on with to a `tier`, but not with `k`, if `depth` parentheses are open around it. -/
structure Tier.BreaksOff (tier : Tier) (depth : Nat) (ks : List Token.Kind) (k : Token.Kind) : Prop where
  viable : ∃ rest, Phrase tier (ks ++ rest)
  stuck : (Awaits.operand depth).pass (ks ++ [k]) = none

namespace Tier.BreaksOff

variable {tier below : Tier} {depth : Nat} {ks ks' : List Token.Kind}
  {k : Token.Kind}

/-- Behind tokens that may come, `k` may not. -/
theorem of_step {s : Awaits} (viable : ∃ rest, Phrase tier (ks ++ rest))
    (hpass : (Awaits.operand depth).pass ks = some s) (hstep : s.step k = none) : tier.BreaksOff depth ks k := by
  refine ⟨viable, ?_⟩
  rw [Awaits.pass_append_of_eq hpass, Awaits.pass_cons, hstep]
  rfl

theorem paren (h : Tier.sum.BreaksOff (depth + 1) ks k) : Tier.factor.BreaksOff depth (.leftParen :: ks) k := by
  obtain ⟨rest, hrest⟩ := h.viable
  refine ⟨⟨rest ++ [.rightParen], ?_⟩, h.stuck⟩
  rw [List.cons_append, ← List.append_assoc]
  exact .paren hrest

/-- A parenthesis that is not closed. -/
theorem unclosed (h : Phrase .sum ks) (hstep : (Awaits.operator (depth + 1)).step k = none) :
    Tier.factor.BreaksOff depth (.leftParen :: ks) k :=
  of_step ⟨[.rightParen], .paren h⟩ (h.pass (depth + 1)) hstep

theorem negated (h : Tier.factor.BreaksOff depth ks k) : Tier.factor.BreaksOff depth (.minus :: ks) k := by
  obtain ⟨rest, hrest⟩ := h.viable
  exact ⟨⟨rest, .negated hrest⟩, h.stuck⟩

theorem first (above : tier.Over below) (h : below.BreaksOff depth ks k) : tier.BreaksOff depth ks k := by
  obtain ⟨rest, hrest⟩ := h.viable
  exact ⟨⟨rest, .single above hrest⟩, h.stuck⟩

theorem second {k' : Token.Kind} {op : Operator} (above : tier.Over below) (left : Phrase tier ks)
    (operator : tier.Operates k' op) (h : below.BreaksOff depth ks' k) :
    tier.BreaksOff depth (ks ++ k' :: ks') k := by
  obtain ⟨rest, hrest⟩ := h.viable
  refine ⟨⟨rest, ?_⟩, ?_⟩
  · rw [List.append_assoc]
    exact .chain above left operator hrest
  · rw [List.append_assoc, Awaits.pass_append_of_eq (left.pass depth), List.cons_append, Awaits.pass_cons,
      Awaits.step_operator operator]
    exact h.stuck

/-- What goes on with `k` is no expression. -/
theorem not_viable (h : tier.BreaksOff 0 ks k) : ¬ Viable (ks ++ [k]) := by
  rintro ⟨rest, hrest⟩
  have hpass := hrest.pass 0
  rw [Awaits.pass_append, h.stuck] at hpass
  cases hpass

/-- An expression breaks off at a token of its row. -/
theorem breaksAt (h : Tier.sum.BreaksOff 0 ks k) (behind : List Token.Kind) :
    BreaksAt (ks ++ k :: behind) ks.length := by
  have hviable : Viable ((ks ++ k :: behind).take ks.length) := by
    rw [List.take_left]
    exact h.viable
  have hbroken : ¬ Viable ((ks ++ k :: behind).take (ks.length + 1)) := by
    rw [List.take_length_add_append]
    exact h.not_viable
  refine ⟨hviable, hbroken, ?_, ?_⟩
  · intro hend hphrase
    obtain rfl : k = .blockEnd := by simpa using hend
    rw [List.take_left] at hphrase
    cases hphrase.pass_blockEnd.symm.trans h.stuck
  · intro j
    constructor
    · intro hj
      refine Nat.le_of_not_lt fun hlt => ?_
      exact hbroken (hj.take hlt)
    · exact hviable.take

end Tier.BreaksOff

end PropertyExpr.Expr
