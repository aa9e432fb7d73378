import PropertyExpr.Proofs.ParserOutcome
/-!
# The grammar is unambiguous

`Derives.unique` — the same tokens have one tree at most, whatever levels there are for it. It is proved of the
fronts of a row: two factors at its front, or two chains behind which no operator goes on, are the same one.
-/
namespace PropertyExpr.Expr

/-- Behind what has been read comes `rest`, and no operator of the tier goes on with it. -/
def Tier.EndsBefore (tier : Tier) (rest : List Token.Kind) : Prop := tier.Closed (rest.headD .blockEnd)

variable {tier below : Tier} {room : Nat} {ks : List Token.Kind}
  {left e : Expr}

/-- A factor that starts with an integer is that integer and nothing else. -/
theorem Derives.of_head_integer {n : UInt64} (h : Derives .factor room ks e) (hk : ks.head? = some (.integer n)) :
    ks = [.integer n] ∧ ∃ i, e = .number i ∧ i.toInt = n.toNat := by
  cases h with
  | integer value =>
    obtain rfl := Token.Kind.integer.inj (Option.some.inj hk)
    exact ⟨rfl, _, rfl, value⟩
  | single above | chain above => cases above
  | _ => simp at hk

/-- A chain that is derived is put together from its operands. -/
theorem Derives.fromOperands (h : Derives tier room ks e) : FromOperands Derives tier room ks e := by
  induction h with
  | integer value => exact .factor (.integer value)
  | string => exact .factor .string
  | reference value positive => exact .factor (.reference value positive)
  | paren inner _ => exact .factor (.paren inner)
  | signedInteger value => exact .factor (.signedInteger value)
  | negatedNumber operand notInteger value _ => exact .factor (.negatedNumber operand notInteger value)
  | negated operand notNumber _ => exact .factor (.negated operand notNumber)
  | single above operand _ => simpa using FromOperands.operands above operand .done
  | chain above _ operator second first _ => exact first.chain above operator second

/-- What stands before the links of a chain ends there. -/
theorem Links.endsBefore {Operand : List Token.Kind → Expr → Prop} {rest : List Token.Kind}
    (links : Links tier Operand left ks e) (above : tier.Over below) (hr : tier.EndsBefore rest) :
    below.EndsBefore (ks ++ rest) := by
  cases links with
  | done => exact ((above.closed_iff _).1 hr).1
  | link operator => exact above.closed_of_operator operator

/-- `ks` is the only front of a row that a tier derives and that ends there, and `e` its only tree. -/
def Unique (tier : Tier) (ks : List Token.Kind) (e : Expr) : Prop :=
  ∀ {room : Nat} {ks' rest rest' : List Token.Kind} {e' : Expr}, Derives tier room ks' e' →
    tier.EndsBefore rest → tier.EndsBefore rest' → ks ++ rest = ks' ++ rest' → ks = ks' ∧ e = e'

theorem Links.unique {room' : Nat} {ks' rest rest' : List Token.Kind} {e' : Expr}
    (links : Links tier (Unique below) left ks e) (above : tier.Over below)
    (links' : Links tier (Derives below room') left ks' e') (hr : tier.EndsBefore rest)
    (hr' : tier.EndsBefore rest') (eq : ks ++ rest = ks' ++ rest') : ks = ks' ∧ e = e' := by
  induction links generalizing ks' with
  | done =>
    cases links' with
    | done => exact ⟨rfl, rfl⟩
    | link operator =>
      obtain rfl : rest = _ := eq
      exact absurd operator (((above.closed_iff _).1 hr).2 _)
  | link operator operand behind ih =>
    cases links' with
    | done =>
      obtain rfl : _ = rest' := eq
      exact absurd operator (((above.closed_iff _).1 hr').2 _)
    | link operator' operand' behind' =>
      simp only [List.cons_append, List.append_assoc, List.cons.injEq] at eq
      obtain ⟨rfl, eq⟩ := eq
      obtain rfl := operator.unique operator'
      obtain ⟨rfl, rfl⟩ := operand operand' (behind.endsBefore above hr) (behind'.endsBefore above hr') eq
      obtain ⟨rfl, rfl⟩ := ih behind' (List.append_cancel_left eq)
      exact ⟨rfl, rfl⟩

theorem unique_paren (inner : Unique .sum ks e) :
    Unique .factor (.leftParen :: (ks ++ [.rightParen])) e := by
  intro room' ks' rest rest' e' h' _ _ eq
  cases h' with
  | paren inner' =>
    simp only [List.cons_append, List.append_assoc, List.nil_append, List.cons.injEq, true_and] at eq
    have hends (rest : List Token.Kind) : Tier.sum.EndsBefore (.rightParen :: rest) := Tier.sum_closed_rightParen
    obtain ⟨rfl, rfl⟩ := inner inner' (hends rest) (hends rest') eq
    exact ⟨rfl, rfl⟩
  | single above | chain above => cases above
  | _ => simp at eq

/-- What stands behind a sign is one integer or no integer. -/
theorem Derives.head_ne_integer (h : Derives .factor room ks e) (hn : ∀ n, ks = [.integer n] → ∀ i, e ≠ .number i)
    {n : UInt64} {rest rest' : List Token.Kind} : ks ++ rest ≠ .integer n :: rest' := by
  intro eq
  obtain ⟨k, ks', rfl⟩ := List.exists_cons_of_ne_nil h.ne_nil
  obtain ⟨rfl, -⟩ := List.cons.inj eq
  obtain ⟨hks, i, he, -⟩ := h.of_head_integer rfl
  exact hn n hks i he

theorem unique_signedInteger {n : UInt64} {i : Int64} (value : i.toInt = -n.toNat) :
    Unique .factor [.minus, .integer n] (.number i) := by
  intro room' ks' rest rest' e' h' _ _ eq
  cases h' with
  | signedInteger value' =>
    simp only [List.cons_append, List.nil_append, List.cons.injEq, Token.Kind.integer.injEq, true_and] at eq
    obtain ⟨rfl, -⟩ := eq
    obtain rfl := Int64.toInt_inj.1 (value.trans value'.symm)
    exact ⟨rfl, rfl⟩
  | negatedNumber operand notInteger =>
    have eq := (List.cons.inj eq).2.symm
    exact absurd eq (operand.head_ne_integer fun n hks => absurd hks (notInteger n))
  | negated operand notNumber =>
    have eq := (List.cons.inj eq).2.symm
    exact absurd eq (operand.head_ne_integer fun _ _ => notNumber)
  | single above | chain above => cases above
  | _ => simp at eq

theorem unique_negatedNumber {m i : Int64} (operand : Unique .factor ks (.number m))
    (notInteger : ∀ n, ks ≠ [.integer n]) (derived : Derives .factor room ks (.number m))
    (value : i.toInt = -m.toInt) : Unique .factor (.minus :: ks) (.number i) := by
  intro room' ks' rest rest' e' h' _ _ eq
  cases h' with
  | signedInteger =>
    have eq := (List.cons.inj eq).2
    exact absurd eq (derived.head_ne_integer fun n hks => absurd hks (notInteger n))
  | negatedNumber operand' _ value' =>
    obtain ⟨rfl, he⟩ := operand operand' trivial trivial (List.cons.inj eq).2
    obtain rfl := Expr.number.inj he
    obtain rfl := Int64.toInt_inj.1 (value.trans value'.symm)
    exact ⟨rfl, rfl⟩
  | negated operand' notNumber =>
    exact absurd (operand operand' trivial trivial (List.cons.inj eq).2).2.symm (notNumber m)
  | single above | chain above => cases above
  | _ => simp at eq

theorem unique_negated (operand : Unique .factor ks e) (derived : Derives .factor room ks e)
    (notNumber : ∀ m, e ≠ .number m) : Unique .factor (.minus :: ks) (.binary .sub (.number 0) e) := by
  intro room' ks' rest rest' e' h' _ _ eq
  cases h' with
  | signedInteger =>
    have eq := (List.cons.inj eq).2
    exact absurd eq (derived.head_ne_integer fun _ _ => notNumber)
  | negatedNumber operand' =>
    exact absurd (operand operand' trivial trivial (List.cons.inj eq).2).2 (notNumber _)
  | negated operand' =>
    obtain ⟨rfl, rfl⟩ := operand operand' trivial trivial (List.cons.inj eq).2
    exact ⟨rfl, rfl⟩
  | single above | chain above => cases above
  | _ => simp at eq

theorem unique_operands {ks₂ : List Token.Kind} (above : tier.Over below)
    (first : Unique below ks left) (links : Links tier (Unique below) left ks₂ e) :
    Unique tier (ks ++ ks₂) e := by
  intro room' ks' rest rest' e' h' hr hr' eq
  cases h'.fromOperands with
  | factor => cases above
  | operands above' first' links' =>
    obtain rfl := above.unique above'
    rw [List.append_assoc, List.append_assoc] at eq
    obtain ⟨rfl, rfl⟩ := first first' (links.endsBefore above hr) (links'.endsBefore above hr') eq
    obtain ⟨rfl, rfl⟩ := links.unique above links' hr hr' (List.append_cancel_left eq)
    exact ⟨rfl, rfl⟩

/-- **What a tier derives at the front of a row** is one stretch of it with one tree. -/
theorem Derives.unique_front (h : Derives tier room ks e) : Unique tier ks e := by
  refine Derives.byOperands (motive := fun tier _ => Unique tier) ?_ ?_ ?_ unique_paren unique_signedInteger
    unique_negatedNumber unique_negated unique_operands h
  · intro room n i value room' ks' rest rest' e' h' _ _ eq
    obtain ⟨k, ks', rfl⟩ := List.exists_cons_of_ne_nil h'.ne_nil
    obtain ⟨rfl, eq⟩ := List.cons.inj eq
    obtain ⟨hks, i', rfl, value'⟩ := h'.of_head_integer rfl
    exact ⟨hks.symm, by rw [Int64.toInt_inj.1 (value.trans value'.symm)]⟩
  · intro room text room' ks' rest rest' e' h' _ _ eq
    cases h' with
    | string => simpa using (List.cons.inj eq).1
    | single above | chain above => cases above
    | _ => simp at eq
  · intro room name field n rank value positive room' ks' rest rest' e' h' _ _ eq
    cases h' with
    | reference value' =>
      simp only [List.cons_append, List.nil_append, List.cons.injEq, Token.Kind.ident.injEq,
        Token.Kind.integer.injEq, true_and] at eq
      obtain ⟨rfl, rfl, rfl, -⟩ := eq
      exact ⟨rfl, by rw [Int64.toInt_inj.1 (value.trans value'.symm)]⟩
    | single above | chain above => cases above
    | _ => simp at eq

/-- **The grammar is unambiguous.** -/
theorem Derives.unique {room' : Nat} {e' : Expr} (h : Derives .sum room ks e) (h' : Derives .sum room' ks e') :
    e = e' := by
  have hends : Tier.sum.EndsBefore [] := Tier.sum_closed_blockEnd
  exact (h.unique_front h' hends hends rfl).2

end PropertyExpr.Expr
