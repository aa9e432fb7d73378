import PropertyExpr.Proofs.Matching
import PropertyExpr.Proofs.Reparsing
/-!
# No parentheses too many

**A printed expression without any of its pairs of parentheses is still parsed, but as another tree**
(`parse_without_parens`). It is still a row of factors with operators between them, so it has some tree
(`FactorRow.derives`). That it is another one is a matter of counting: whatever derives a tree has a parenthesis for
each that is printed for the tree (`parenCount_le_of_derives`). A minus sign can stand for a parenthesis, but it also
puts a zero into the tree, and the printed tokens have as many integers as the tree, with or without parentheses
(`Written.surplus_eq`).
-/
namespace PropertyExpr.Expr

open PropertyExpr.Text (Balanced MatchingParens)
open Piece (Quoting)

/-! ## How many parentheses a tree takes -/

/-- How many pairs of parentheses are printed for an expression. -/
def parenCount : Expr → Nat
  | number _ | string _ | ref _ => 0
  | binary op left right =>
    left.parenCount + (left.leftNeedsParens op).toNat + (right.parenCount + (right.rightNeedsParens op).toNat)

/-- The integers in a tree, ranks of references among them. -/
def integerCount : Expr → Nat
  | number _ | ref _ => 1
  | string _ => 0
  | binary _ left right => left.integerCount + right.integerCount

/-- How many more opening parentheses than integers there are. -/
def surplus : List Token.Kind → Int
  | [] => 0
  | .leftParen :: ks => surplus ks + 1
  | .integer _ :: ks => surplus ks - 1
  | _ :: ks => surplus ks

@[simp] theorem surplus_append (ks ks' : List Token.Kind) : surplus (ks ++ ks') = surplus ks + surplus ks' := by
  fun_induction surplus ks with
  | case1 => simp
  | case2 ks ih | case3 _ ks ih =>
    simp only [List.cons_append, surplus, ih]
    omega
  | case4 k ks hparen hinteger ih => rw [List.cons_append, surplus, ih] <;> assumption

theorem parensFor_sum (e : Expr) : parensFor .sum e = 0 := if_neg (Nat.not_lt.2 (rank_le e.tier))

/-- **Tokens of a tree** have a parenthesis for each that is printed, unless a sign makes up for it, which puts an
integer into the tree that is not among the tokens. -/
theorem parenCount_le_of_derives {tier : Tier} {room : Nat} {ks : List Token.Kind} {e : Expr}
    (h : Derives tier room ks e) : e.parenCount + parensFor tier e ≤ surplus ks + e.integerCount := by
  induction h with
  | integer | string | reference | signedInteger =>
    simp [parenCount, parensFor, Expr.tier, Tier.rank, surplus, integerCount]
  | @paren room ks e _ ih =>
    have hle := parensFor_le_one .factor e
    simp only [surplus, surplus_append, parensFor_sum] at ih ⊢
    omega
  | negatedNumber _ _ _ ih => simpa [parenCount, parensFor, Expr.tier, Tier.rank, surplus, integerCount] using ih
  | @negated room ks e _ _ ih =>
    have hright : (e.rightNeedsParens .sub).toNat = parensFor .product e := rightNeedsParens_toNat e rfl
    have hle : parensFor .product e ≤ parensFor .factor e := parensFor_le (by decide) e
    have hself : parensFor .factor (.binary .sub (.number 0) e) = 1 := rfl
    have hleft : ((Expr.number 0).leftNeedsParens .sub).toNat = 0 := rfl
    simp only [parenCount, hright, hself, hleft, integerCount, surplus]
    omega
  | @single tier below room ks e above _ ih =>
    have hle : parensFor tier e ≤ parensFor below e := parensFor_le (by rw [above.rank_eq]; omega) e
    omega
  | @chain tier below room ks ks' k op left right above _ operator _ first second =>
    obtain rfl := operator.tier_eq
    have hbelow := above.rank_eq
    have hself : parensFor op.tier (.binary op left right) = 0 := if_neg (Nat.lt_irrefl _)
    have hk : surplus (k :: ks') = surplus ks' := by
      generalize op.tier = tier at operator
      cases operator <;> rfl
    simp only [parenCount, leftNeedsParens_toNat, rightNeedsParens_toNat right hbelow, hself, integerCount,
      surplus_append, hk]
    omega

/-! ## Rows of factors -/

/-- Factors with operators between them, and how many operators there are in all. -/
inductive FactorRow (room : Nat) : List Token.Kind → Nat → Prop where
  | factor {ks : List Token.Kind} {e : Expr} (h : Derives .factor room ks e) : FactorRow room ks e.operatorCount
  | join {ks ks' : List Token.Kind} {n : Nat} {e : Expr} (op : Operator) (row : FactorRow room ks n)
      (h : Derives .factor room ks' e) : FactorRow room (ks ++ op.kind :: ks') (n + e.operatorCount + 1)

/-- What stands before a product in a sum, and its operators. -/
inductive SumFront (room : Nat) : List Token.Kind → Nat → Prop where
  | nil : SumFront room [] 0
  | sum {ks : List Token.Kind} {e : Expr} {op : Operator} (h : Derives .sum room ks e) (hop : op.tier = .sum) :
      SumFront room (ks ++ [op.kind]) (e.operatorCount + 1)

section
variable {room n n' : Nat} {ks ks' : List Token.Kind} {op : Operator} {left right e : Expr}

theorem derives_product (hop : op.tier = .product) (h : Derives .product room ks left)
    (h' : Derives .factor room ks' right) : Derives .product room (ks ++ op.kind :: ks') (.binary op left right) := by
  have hoperator := Tier.operates_kind op
  rw [hop] at hoperator
  exact .chain .product h hoperator h'

theorem derives_sum (hop : op.tier = .sum) (h : Derives .sum room ks left)
    (h' : Derives .product room ks' right) : Derives .sum room (ks ++ op.kind :: ks') (.binary op left right) := by
  have hoperator := Tier.operates_kind op
  rw [hop] at hoperator
  exact .chain .sum h hoperator h'

theorem SumFront.derives (front : SumFront room ks n) (h : Derives .product room ks' e) :
    ∃ e', Derives .sum room (ks ++ ks') e' ∧ e'.operatorCount = n + e.operatorCount := by
  cases front with
  | nil => exact ⟨e, .single .sum h, (Nat.zero_add _).symm⟩
  | sum h' hop =>
    have hsum := derives_sum hop h' h
    rw [List.append_cons] at hsum
    refine ⟨_, hsum, ?_⟩
    simp only [operatorCount]
    omega

theorem FactorRow.append (row : FactorRow room ks n) (op : Operator) (row' : FactorRow room ks' n') :
    FactorRow room (ks ++ op.kind :: ks') (n + n' + 1) := by
  induction row' with
  | factor h => exact .join op row h
  | @join ks' ks'' n' e op' _ h ih =>
    have hjoin := FactorRow.join op' ih h
    rw [List.append_assoc, List.cons_append] at hjoin
    have hcount : n + (n' + e.operatorCount + 1) + 1 = n + n' + 1 + e.operatorCount + 1 := by omega
    rwa [hcount]

/-- The last operator decides where a factor goes: to the last product, or behind the sum. -/
theorem FactorRow.exists_front (row : FactorRow room ks n) :
    ∃ front n' product e, ks = front ++ product ∧ SumFront room front n' ∧ Derives .product room product e ∧
      n = n' + e.operatorCount := by
  induction row with
  | factor h => exact ⟨[], 0, _, _, rfl, .nil, .single .product h, (Nat.zero_add _).symm⟩
  | @join ks ks' n e op row h ih =>
    obtain ⟨front, n', product, e', rfl, hfront, hproduct, rfl⟩ := ih
    cases hop : op.tier with
    | factor => cases op <;> cases hop
    | product =>
      refine ⟨front, n', _, _, ?_, hfront, derives_product hop hproduct h, ?_⟩
      · rw [List.append_assoc]
      · simp only [operatorCount]
        omega
    | sum =>
      obtain ⟨sum, hsum, hcount⟩ := hfront.derives hproduct
      refine ⟨_, _, _, _, ?_, .sum hsum hop, .single .product h, ?_⟩
      · rw [List.append_cons]
      · omega

theorem FactorRow.derives (row : FactorRow room ks n) : ∃ e, Derives .sum room ks e ∧ e.operatorCount = n := by
  obtain ⟨front, n', product, e, rfl, hfront, hproduct, rfl⟩ := row.exists_front
  exact hfront.derives hproduct

theorem FactorRow.between_parens {levels : Nat} {parens : Bool} (row : ∀ room, levels ≤ room → FactorRow room ks n)
    (hroom : levels + parens.toNat ≤ room) : FactorRow room (parenthesizeKinds parens ks) n := by
  cases parens with
  | false => exact row room hroom
  | true =>
    obtain ⟨room, rfl⟩ : ∃ r, room = r + 1 := ⟨room - 1, by simp only [Bool.toNat_true] at hroom; omega⟩
    obtain ⟨e, derived, rfl⟩ := (row room (Nat.le_of_succ_le_succ hroom)).derives
    exact .factor (.paren derived)

end

/-! ## Printed with some of the parentheses -/

/-- An operator as it stands between its operands. -/
def spaced (op : Operator) : List Char := ' ' :: (op.symbol.toList ++ [' '])

/-- `text`, with the tokens `ks`, is how `e` is printed, but with only `n` of the pairs of parentheses. -/
inductive Written : Expr → (text : List Char) → (ks : List Token.Kind) → (n : Nat) → Prop where
  | leaf {e : Expr} (h : e.tier = .factor) : Written e e.print e.kinds 0
  | operands {op : Operator} {left right : Expr} {parens parens' : Bool} {text text' : List Char}
      {ks ks' : List Token.Kind} {n n' : Nat} (hleft : Written left text ks n) (hright : Written right text' ks' n')
      (hparens : parens → left.leftNeedsParens op) (hparens' : parens' → right.rightNeedsParens op) :
      Written (.binary op left right) (parenthesize parens text ++ (spaced op ++ parenthesize parens' text'))
        (parenthesizeKinds parens ks ++ op.kind :: parenthesizeKinds parens' ks')
        (n + parens.toNat + (n' + parens'.toNat))

theorem print_binary (op : Operator) (left right : Expr) : (binary op left right).print =
    parenthesize (left.leftNeedsParens op) left.print ++
      (spaced op ++ parenthesize (right.rightNeedsParens op) right.print) := by
  simp [print, spaced]

theorem written_print (e : Expr) : Written e e.print e.kinds e.parenCount := by
  induction e with
  | number | string | ref => exact .leaf rfl
  | binary op left right ihl ihr =>
    rw [print_binary]
    exact .operands ihl ihr id id

section
variable {e : Expr} {text : List Char} {ks : List Token.Kind} {n : Nat}

theorem Written.lexes (h : Written e text ks n) (hrefs : ∀ r ∈ e.references, r.defect? = none) {rest : List Char}
    {ks' : List Token.Kind} (hrest : BreaksOff rest) (hbehind : Lexes rest ks') : Lexes (text ++ rest) (ks ++ ks') := by
  induction h generalizing rest ks' with
  | leaf => exact lexes_print _ hrefs hrest hbehind
  | @operands op left right parens parens' text text' ks ks'' n n' _ _ _ _ ihl ihr =>
    simp only [references, List.mem_append] at hrefs
    have hr := lexes_parenthesize parens' (ihr fun r h => hrefs r (.inr h)) hrest hbehind
    have hop := lexes_operator op (lexes_blank rfl hr : Lexes (' ' :: _) _)
    have hl := lexes_parenthesize parens (ihl fun r h => hrefs r (.inl h))
      (breaksOff_cons rfl _) (lexes_blank rfl hop : Lexes (' ' :: _) _)
    simpa [spaced] using hl

theorem toNat_le_of_imp {b b' : Bool} (h : b → b') : b.toNat ≤ b'.toNat := by
  cases b with
  | false => exact Nat.zero_le _
  | true => rw [h rfl]

/-- Fewer parentheses leave a row of factors that takes no more room. -/
theorem Written.factorRow (h : Written e text ks n) (hrefs : ∀ r ∈ e.references, r.defect? = none) {room : Nat}
    (hroom : e.parenDepth ≤ room) : FactorRow room ks e.operatorCount := by
  induction h generalizing room with
  | @leaf e hfactor =>
    have derived := derives_kinds e hrefs room hroom
    rw [hfactor] at derived
    exact .factor derived
  | @operands op left right parens parens' text text' ks ks' n n' _ _ hparens hparens' ihl ihr =>
    simp only [references, List.mem_append] at hrefs
    simp only [parenDepth] at hroom
    have hl := toNat_le_of_imp hparens
    have hr := toNat_le_of_imp hparens'
    have hleft : FactorRow room (parenthesizeKinds parens ks) left.operatorCount :=
      FactorRow.between_parens (fun room => ihl fun r h => hrefs r (.inl h)) (by omega)
    have hright : FactorRow room (parenthesizeKinds parens' ks') right.operatorCount :=
      FactorRow.between_parens (fun room => ihr fun r h => hrefs r (.inr h)) (by omega)
    exact hleft.append op hright

theorem surplus_parenthesizeKinds (parens : Bool) :
    surplus (parenthesizeKinds parens ks) = surplus ks + parens.toNat := by
  cases parens <;> simp [parenthesizeKinds, surplus]

theorem Written.surplus_eq (h : Written e text ks n) : surplus ks + e.integerCount = n := by
  induction h with
  | @leaf e hfactor =>
    cases e with
    | number m =>
      rw [kinds]
      split <;> rfl
    | string | ref => rfl
    | binary op => cases op <;> cases hfactor
  | @operands op left right parens parens' text text' ks ks' n n' _ _ _ _ ihl ihr =>
    have hop : surplus (op.kind :: parenthesizeKinds parens' ks') = surplus (parenthesizeKinds parens' ks') := by
      cases op <;> rfl
    simp only [surplus_append, hop, surplus_parenthesizeKinds, integerCount]
    omega

/-! ## Pairs in a printed expression -/

theorem openBehind_escape (cs : List Char) :
    Text.openBehind (.inside, 0) (escape cs ++ ['"']) = some (.outside, 0) := by
  induction cs with
  | nil => rfl
  | cons c cs ih =>
    rw [escape]
    split
    · exact ih
    · rename_i hc
      rw [not_or] at hc
      have hnext : Text.openNext (.inside, 0) c = some (.inside, 0) := by
        simp [Text.openNext, Quoting.next, hc]
      rw [List.cons_append, Text.openBehind_cons, hnext]
      exact ih

/-- No place in a string literal is outside of it. -/
theorem after_ne_outside_of_escape {cs before rest : List Char} {c : Char}
    (h : escape cs ++ ['"'] = before ++ c :: rest) : Quoting.inside.after before ≠ .outside := by
  induction cs generalizing before with
  | nil =>
    cases before with
    | nil => exact Quoting.noConfusion
    | cons d before => simp [escape] at h
  | cons a cs ih =>
    rw [escape] at h
    split at h
    · rcases before with _ | ⟨d, _ | ⟨d', before⟩⟩
      · exact Quoting.noConfusion
      · obtain ⟨rfl, -⟩ := List.cons.inj h
        exact Quoting.noConfusion
      · obtain ⟨rfl, htail⟩ := List.cons.inj h
        have hbehind := ih (List.cons.inj htail).2
        exact hbehind
    · rename_i ha
      rw [not_or] at ha
      cases before with
      | nil => exact Quoting.noConfusion
      | cons d before =>
        obtain ⟨rfl, htail⟩ := List.cons.inj h
        have hnext : Quoting.inside.next a = .inside := by simp [Quoting.next, ha]
        rw [Quoting.after, List.foldl_cons, hnext]
        exact ih htail

theorem balanced_parenthesize (parens : Bool) (h : Balanced text) : Balanced (parenthesize parens text) := by
  cases parens with
  | false => exact h
  | true => exact h.between_parens

theorem plain_spaced (op : Operator) : ∀ c ∈ spaced op, c ≠ '(' ∧ c ≠ ')' ∧ c ≠ '"' := by
  cases op <;> simp [spaced, Operator.symbol]

theorem plain_number (n : Int64) : ∀ c ∈ (number n).print, c ≠ '(' ∧ c ≠ ')' ∧ c ≠ '"' := fun c hc =>
  plain_of_isWordPart (isWordPart_of_mem_toString c hc)

theorem plain_ref {r : Reference} (h : r.defect? = none) : ∀ c ∈ (ref r).print, c ≠ '(' ∧ c ≠ ')' ∧ c ≠ '"' :=
  fun c hc => plain_of_isWordPart (isWordPart_of_mem_display h c hc)

theorem balanced_print (hrefs : ∀ r ∈ e.references, r.defect? = none) : Balanced e.print := by
  induction e with
  | number n => exact Text.balanced_of_plain (plain_number n)
  | string s => exact openBehind_escape s.toList
  | ref r => exact Text.balanced_of_plain (plain_ref (hrefs r (by simp [references])))
  | binary op left right ihl ihr =>
    simp only [references, List.mem_append] at hrefs
    have hl := balanced_parenthesize (left.leftNeedsParens op) (ihl fun r h => hrefs r (.inl h))
    have hr := balanced_parenthesize (right.rightNeedsParens op) (ihr fun r h => hrefs r (.inr h))
    rw [print_binary]
    exact hl.append ((Text.balanced_of_plain (plain_spaced op)).append hr)

variable {before inner after : List Char}

/-- Without one of its pairs, the text of an operand is written with one pair less, be it the pair around it. -/
theorem exists_written_of_parenthesize {parens : Bool}
    (h : MatchingParens (parenthesize parens e.print) before inner after) (hbalanced : Balanced e.print)
    (hwritten : ∀ {before inner after}, MatchingParens e.print before inner after →
      ∃ ks n, Written e (before ++ (inner ++ after)) ks n ∧ n + 1 = e.parenCount) :
    ∃ parens' text ks n, before ++ (inner ++ after) = parenthesize parens' text ∧ (parens' → parens) ∧
      Written e text ks n ∧ n + parens'.toNat + 1 = e.parenCount + parens.toNat := by
  cases parens with
  | false =>
    obtain ⟨ks, n, hw, hcount⟩ := hwritten h
    exact ⟨false, _, ks, n, rfl, id, hw, hcount⟩
  | true =>
    rcases h.around_or_in hbalanced with ⟨rfl, rfl, rfl⟩ | ⟨before, after, rfl, rfl, hin⟩
    · exact ⟨false, e.print, _, _, List.append_nil _, fun h => absurd h (by decide), written_print e, rfl⟩
    · obtain ⟨ks, n, hw, hcount⟩ := hwritten hin
      refine ⟨true, before ++ (inner ++ after), ks, n, ?_, id, hw, ?_⟩
      · simp [parenthesize]
      · rw [← hcount]
        rfl

/-- **A printed expression without one of its pairs** is written with one pair less. -/
theorem exists_written_of_matchingParens (hrefs : ∀ r ∈ e.references, r.defect? = none)
    (h : MatchingParens e.print before inner after) :
    ∃ ks n, Written e (before ++ (inner ++ after)) ks n ∧ n + 1 = e.parenCount := by
  induction e generalizing before inner after with
  | number n => exact absurd h (Text.not_matchingParens_of_plain (plain_number n))
  | string s =>
    obtain ⟨htext, houtside, -⟩ := h
    rw [print] at htext
    cases before with
    | nil => cases htext
    | cons c before =>
      obtain ⟨rfl, htail⟩ := List.cons.inj htext
      exact absurd houtside (after_ne_outside_of_escape htail)
  | ref r => exact absurd h (Text.not_matchingParens_of_plain (plain_ref (hrefs r (by simp [references]))))
  | binary op left right ihl ihr =>
    simp only [references, List.mem_append] at hrefs
    have hbl := balanced_print fun r h => hrefs r (.inl h)
    have hbr := balanced_print fun r h => hrefs r (.inr h)
    rw [print_binary] at h
    rcases h.first_or_second (balanced_parenthesize (left.leftNeedsParens op) hbl) with
      ⟨between, rfl, hin⟩ | ⟨between, rfl, hbehind⟩
    · obtain ⟨parens, text, ks, n, htext, hparens, hw, hcount⟩ :=
        exists_written_of_parenthesize hin hbl (ihl fun r h => hrefs r (.inl h))
      have hbinary := Written.operands hw (written_print right) hparens (id : right.rightNeedsParens op → _)
      rw [← htext, List.append_assoc, List.append_assoc] at hbinary
      refine ⟨_, _, hbinary, ?_⟩
      simp only [parenCount]
      omega
    rcases hbehind.first_or_second (Text.balanced_of_plain (plain_spaced op)) with ⟨_, _, hin⟩ | ⟨between, rfl, hin⟩
    · exact absurd hin (Text.not_matchingParens_of_plain (plain_spaced op))
    · obtain ⟨parens, text, ks, n, htext, hparens, hw, hcount⟩ :=
        exists_written_of_parenthesize hin hbr (ihr fun r h => hrefs r (.inr h))
      have hbinary := Written.operands (written_print left) hw (id : left.leftNeedsParens op → _) hparens
      rw [← htext] at hbinary
      rw [List.append_assoc, List.append_assoc]
      refine ⟨_, _, hbinary, ?_⟩
      simp only [parenCount]
      omega

end

/-- **No parentheses that are printed are redundant**: without any pair of them outside of string literals the text is
still parsed, but as another tree. -/
theorem parse_without_parens {e : Expr} (hrefs : ∀ r ∈ e.references, r.defect? = none)
    (hcount : e.operatorCount ≤ maxOperators) (hdepth : Text.nesting e.print ≤ maxDepth)
    {before inner after : List Char} (h : MatchingParens e.print before inner after) :
    ∃ e', parse (before ++ (inner ++ after)) = .ok e' ∧ e' ≠ e := by
  obtain ⟨ks, n, hwritten, hless⟩ := exists_written_of_matchingParens hrefs h
  rw [nesting_print e hrefs] at hdepth
  obtain ⟨e', derived, hoperators⟩ := (hwritten.factorRow hrefs hdepth).derives
  have hend : BreaksOff [] := by rintro _ ⟨⟩
  have hlexes := hwritten.lexes hrefs hend lexes_nil
  rw [List.append_nil, List.append_nil] at hlexes
  refine ⟨e', (parseAt_eq_ok_iff _ e').2 ⟨ks, hlexes, derived, by omega⟩, ?_⟩
  rintro rfl
  have hle := parenCount_le_of_derives derived
  have hsurplus := hwritten.surplus_eq
  omega

/-- Here the last two are multiplied first. -/
theorem parse_without_parens_product : ∃ e, parse "1 + 2 * 3".toList = .ok e ∧
    e ≠ .binary .mul (.binary .add (.number 1) (.number 2)) (.number 3) := by
  have hprint : (Expr.binary .mul (.binary .add (.number 1) (.number 2)) (.number 3)).print = "(1 + 2) * 3".toList := by
    decide
  have hpair : MatchingParens (Expr.binary .mul (.binary .add (.number 1) (.number 2)) (.number 3)).print []
      "1 + 2".toList " * 3".toList := ⟨by rw [hprint]; decide, by decide, by decide⟩
  exact parse_without_parens (by decide) (by decide) (by rw [hprint]; decide) hpair

end PropertyExpr.Expr
