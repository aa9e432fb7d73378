import PropertyExpr.Proofs.Lexing
import PropertyExpr.Proofs.ParserCorrect
/-!
# The tokens of a printed expression

`Expr.kinds` are the tokens that `Expr.print` writes (`lexes_print`). They derive the expression at its own tier
in as much room as its parentheses nest (`derives_kinds`), and no derivation of it has less
(`parenDepth_le_of_derives`): every parenthesis that is printed was paid for with a parenthesis or a minus sign.
-/
namespace PropertyExpr

theorem Reference.defect?_eq_none_iff {r : Reference} :
    r.defect? = none ↔ isIdentifier r.name ∧ 1 ≤ r.rank.toInt ∧ isIdentifier r.field := by
  have hone : (1 : Int64).toInt = 1 := by decide
  have hrank : r.rank < 1 ↔ ¬ 1 ≤ r.rank.toInt := by
    rw [Int64.lt_iff_toInt_lt, hone]
    omega
  simp only [defect?, Bool.not_eq_true', hrank]
  cases isIdentifier r.name <;> cases isIdentifier r.field <;> by_cases h : 1 ≤ r.rank.toInt <;> simp [h]

/-! ## Tiers of trees -/

namespace Expr

/-- The tightest tiers come first. -/
def Tier.rank : Tier → Nat
  | .factor => 0
  | .product => 1
  | .sum => 2

end Expr

open PropertyExpr.Expr (Tier Derives)

def Operator.tier : Operator → Tier
  | add | sub => .sum
  | mul | div => .product

def Operator.kind : Operator → Token.Kind
  | add => .plus
  | sub => .minus
  | mul => .star
  | div => .slash

namespace Expr

/-- The tightest tier that an expression is without parentheses around it. -/
def tier : Expr → Tier
  | number _ | string _ | ref _ => .factor
  | binary op _ _ => op.tier

/-- A sum is the loosest tier. -/
theorem rank_le (tier : Tier) : tier.rank ≤ Tier.sum.rank := by
  cases tier <;> decide

theorem Derives.loosen {tier tier' : Tier} {room : Nat} {ks : List Token.Kind} {e : Expr}
    (h : Derives tier room ks e) (hle : tier.rank ≤ tier'.rank) : Derives tier' room ks e := by
  cases tier <;> cases tier' <;> first
    | exact h
    | exact .single .product h
    | exact .single .sum h
    | exact .single .sum (.single .product h)
    | simp [Tier.rank] at hle

theorem rank_tier_add_precedence (op : Operator) : op.tier.rank + op.precedence = 3 := by
  cases op <;> rfl

theorem leftNeedsParens_iff (e : Expr) (op : Operator) : e.leftNeedsParens op ↔ op.tier.rank < e.tier.rank := by
  cases e with
  | binary inner _ _ =>
    have hinner := rank_tier_add_precedence inner
    have hop := rank_tier_add_precedence op
    simp only [leftNeedsParens, decide_eq_true_eq, tier]
    omega
  | _ => simp [leftNeedsParens, tier, Tier.rank]

theorem rightNeedsParens_iff (e : Expr) (op : Operator) : e.rightNeedsParens op ↔ op.tier.rank ≤ e.tier.rank := by
  cases e with
  | binary inner _ _ =>
    have hinner := rank_tier_add_precedence inner
    have hop := rank_tier_add_precedence op
    simp only [rightNeedsParens, decide_eq_true_eq, tier]
    omega
  | _ => cases op <;> simp [rightNeedsParens, tier, Operator.tier, Tier.rank]

theorem Tier.operates_kind (op : Operator) : op.tier.Operates op.kind op := by
  cases op <;> constructor

/-- What has operators is a chain. -/
theorem Tier.Operates.exists_over {tier : Tier} {k : Token.Kind} {op : Operator} (h : tier.Operates k op) :
    ∃ below, tier.Over below := by
  cases h with
  | star | slash => exact ⟨_, .product⟩
  | plus | minus => exact ⟨_, .sum⟩

theorem Tier.Over.rank_eq {tier below : Tier} (above : tier.Over below) : tier.rank = below.rank + 1 := by
  cases above <;> rfl

theorem Tier.Operates.tier_eq {tier : Tier} {k : Token.Kind} {op : Operator} (h : tier.Operates k op) :
    op.tier = tier := by
  cases h <;> rfl

/-! ## How deep a printed expression nests -/

/-- How deep the parentheses nest that are printed for an expression. -/
def parenDepth : Expr → Nat
  | number _ | string _ | ref _ => 0
  | binary op left right =>
    max (left.parenDepth + (left.leftNeedsParens op).toNat) (right.parenDepth + (right.rightNeedsParens op).toNat)

/-- Whether parentheses go around `e` where a `tier` is asked for, as a number of levels. -/
def parensFor (tier : Tier) (e : Expr) : Nat := if tier.rank < e.tier.rank then 1 else 0

theorem parensFor_le_one (tier : Tier) (e : Expr) : parensFor tier e ≤ 1 := by
  unfold parensFor
  split <;> omega

theorem parensFor_le {tier below : Tier} (h : below.rank ≤ tier.rank) (e : Expr) :
    parensFor tier e ≤ parensFor below e := by
  unfold parensFor
  split <;> split <;> omega

theorem leftNeedsParens_toNat (e : Expr) (op : Operator) : (e.leftNeedsParens op).toNat = parensFor op.tier e := by
  unfold parensFor
  split
  · rename_i h
    rw [(leftNeedsParens_iff e op).2 h, Bool.toNat_true]
  · rename_i h
    rw [Bool.eq_false_iff.2 (mt (leftNeedsParens_iff e op).1 h), Bool.toNat_false]

theorem rightNeedsParens_toNat (e : Expr) {op : Operator} {below : Tier} (hbelow : op.tier.rank = below.rank + 1) :
    (e.rightNeedsParens op).toNat = parensFor below e := by
  unfold parensFor
  split
  · rename_i h
    rw [(rightNeedsParens_iff e op).2 (by omega), Bool.toNat_true]
  · rename_i h
    rw [Bool.eq_false_iff.2 (mt (rightNeedsParens_iff e op).1 (by omega)), Bool.toNat_false]

/-- An expression that stands where a tighter tier is asked for was put there by a parenthesis or a sign. -/
theorem parenDepth_le_of_derives {tier : Tier} {room : Nat} {ks : List Token.Kind} {e : Expr}
    (h : Derives tier room ks e) : e.parenDepth + parensFor tier e ≤ room := by
  induction h with
  | integer | string | reference | signedInteger | negatedNumber =>
    simp [parenDepth, parensFor, Expr.tier, Tier.rank]
  | @paren room ks e _ ih =>
    have hle := parensFor_le_one .factor e
    omega
  | @negated room ks e _ _ ih =>
    have hright : (e.rightNeedsParens .sub).toNat = parensFor .product e := rightNeedsParens_toNat e rfl
    have hle : parensFor .product e ≤ parensFor .factor e := parensFor_le (by decide) e
    have hself : parensFor .factor (.binary .sub (.number 0) e) = 1 := rfl
    have hleft : ((Expr.number 0).leftNeedsParens .sub).toNat = 0 := rfl
    simp only [parenDepth, hright, hself, hleft]
    omega
  | @single tier below room ks e above _ ih =>
    have hle : parensFor tier e ≤ parensFor below e := parensFor_le (by rw [above.rank_eq]; omega) e
    omega
  | @chain tier below room ks ks' k op left right above _ operator _ first second =>
    obtain rfl := operator.tier_eq
    have hbelow := above.rank_eq
    have hself : parensFor op.tier (.binary op left right) = 0 := if_neg (Nat.lt_irrefl _)
    simp only [parenDepth, leftNeedsParens_toNat, rightNeedsParens_toNat right hbelow, hself]
    omega

/-! ## The tokens of the printed text -/

/-- Tokens between parentheses if `parens` says so. -/
def parenthesizeKinds (parens : Bool) (ks : List Token.Kind) : List Token.Kind :=
  if parens then .leftParen :: (ks ++ [.rightParen]) else ks

/-- The integer token of a magnitude. -/
def magnitude (n : Int) : Token.Kind := .integer (UInt64.ofNat n.natAbs)

/-- The tokens that the printed expression is made of. -/
def kinds : Expr → List Token.Kind
  | number n => if n.toInt < 0 then [.minus, magnitude n.toInt] else [magnitude n.toInt]
  | string s => [.string s]
  | ref r => [.ident r.name, .leftBracket, magnitude r.rank.toInt, .rightBracket, .dot, .ident r.field]
  | binary op left right =>
    parenthesizeKinds (left.leftNeedsParens op) left.kinds ++
      op.kind :: parenthesizeKinds (right.rightNeedsParens op) right.kinds

/-- An expression is derived from its tokens, with parentheses around it or without. -/
theorem derives_parenthesizeKinds {parens : Bool} {tier : Tier} {e : Expr} {ks : List Token.Kind} {room : Nat}
    (derived : ∀ room, e.parenDepth ≤ room → Derives e.tier room ks e) (hroom : e.parenDepth + parens.toNat ≤ room)
    (htier : parens = false → e.tier.rank ≤ tier.rank) : Derives tier room (parenthesizeKinds parens ks) e := by
  cases parens with
  | false => exact (derived room hroom).loosen (htier rfl)
  | true =>
    obtain ⟨room, rfl⟩ : ∃ r, room = r + 1 := ⟨room - 1, by simp only [Bool.toNat_true] at hroom; omega⟩
    have hinner : Derives .sum room ks e :=
      (derived room (Nat.le_of_succ_le_succ hroom)).loosen (rank_le _)
    exact (Derives.paren hinner).loosen (Nat.zero_le _)

theorem natAbs_toInt_lt (i : Int64) : i.toInt.natAbs < UInt64.size := by
  have lower := i.le_toInt
  have upper := i.toInt_lt
  simp only [UInt64.size]
  omega

theorem toNat_magnitude (i : Int64) : (UInt64.ofNat i.toInt.natAbs).toNat = i.toInt.natAbs :=
  UInt64.toNat_ofNat_of_lt' (natAbs_toInt_lt i)

/-- **A printed expression is derived from its tokens** in the room that its parentheses take. -/
theorem derives_kinds (e : Expr) (hrefs : ∀ r ∈ e.references, r.defect? = none) (room : Nat)
    (hroom : e.parenDepth ≤ room) : Derives e.tier room e.kinds e := by
  induction e generalizing room with
  | number n =>
    simp only [kinds]
    split
    · exact .signedInteger (by rw [toNat_magnitude]; omega)
    · exact .integer (by rw [toNat_magnitude]; omega)
  | string s => exact .string
  | ref r =>
    obtain ⟨-, hrank, -⟩ := Reference.defect?_eq_none_iff.1 (hrefs r (by simp [references]))
    exact .reference (by rw [toNat_magnitude]; omega) hrank
  | binary op left right ihl ihr =>
    simp only [references, List.mem_append] at hrefs
    simp only [parenDepth] at hroom
    have hoperator := Tier.operates_kind op
    obtain ⟨below, above⟩ := hoperator.exists_over
    have hbelow := above.rank_eq
    have hl := leftNeedsParens_iff left op
    have hr := rightNeedsParens_iff right op
    have htier : (binary op left right).tier = op.tier := rfl
    rw [htier]
    refine .chain above ?_ hoperator ?_
    · exact derives_parenthesizeKinds (ihl fun r h => hrefs r (.inl h)) (by omega)
        (fun h => by simp only [h, Bool.false_eq_true, false_iff] at hl; omega)
    · exact derives_parenthesizeKinds (ihr fun r h => hrefs r (.inr h)) (by omega)
        (fun h => by simp only [h, Bool.false_eq_true, false_iff] at hr; omega)

theorem breaksOff_cons {c : Char} (h : isIdentifierPart c = false) (cs : List Char) : BreaksOff (c :: cs) := by
  rintro _ ⟨⟩
  exact h

theorem lexes_magnitude (i : Int64) {rest : List Char} {ks : List Token.Kind} (hrest : BreaksOff rest)
    (h : Lexes rest ks) : Lexes (Nat.toDigits 10 i.toInt.natAbs ++ rest) (magnitude i.toInt :: ks) :=
  lexes_integer (natAbs_toInt_lt i) hrest h

theorem lexes_operator (op : Operator) {rest : List Char} {ks : List Token.Kind} (h : Lexes rest ks) :
    Lexes (op.symbol.toList ++ rest) (op.kind :: ks) := by
  cases op <;> exact lexes_punctuation rfl h

theorem lexes_parenthesize (parens : Bool) {text : List Char} {ks : List Token.Kind}
    (htext : ∀ {rest : List Char} {ks' : List Token.Kind}, BreaksOff rest → Lexes rest ks' →
      Lexes (text ++ rest) (ks ++ ks'))
    {rest : List Char} {ks' : List Token.Kind} (hrest : BreaksOff rest) (h : Lexes rest ks') :
    Lexes (parenthesize parens text ++ rest) (parenthesizeKinds parens ks ++ ks') := by
  cases parens with
  | false => exact htext hrest h
  | true =>
    have hclosed := htext (breaksOff_cons rfl _) (lexes_punctuation (c := ')') rfl h)
    simpa [parenthesize, parenthesizeKinds] using lexes_punctuation (c := '(') rfl hclosed

/-- **A printed expression lexes to its tokens**, before any text that does not go on with a name or a number. -/
theorem lexes_print (e : Expr) (hrefs : ∀ r ∈ e.references, r.defect? = none) {rest : List Char}
    {ks : List Token.Kind} (hrest : BreaksOff rest) (h : Lexes rest ks) :
    Lexes (e.print ++ rest) (e.kinds ++ ks) := by
  induction e generalizing rest ks with
  | number n =>
    rw [print, kinds, toList_toString]
    split
    · exact lexes_punctuation rfl (lexes_magnitude n hrest h)
    · exact lexes_magnitude n hrest h
  | string s => simpa [print, kinds] using lexes_string s h
  | ref r =>
    obtain ⟨hname, hrank, hfield⟩ := Reference.defect?_eq_none_iff.1 (hrefs r (by simp [references]))
    have hdot := lexes_punctuation (c := '.') rfl (lexes_ident hfield hrest h)
    have hright := lexes_punctuation (c := ']') rfl hdot
    have hleft := lexes_punctuation (c := '[') rfl (lexes_magnitude r.rank (breaksOff_cons rfl _) hright)
    have hlexes := lexes_ident hname (breaksOff_cons rfl _) hleft
    have htext := toList_toString r.rank.toInt
    rw [if_neg (by omega)] at htext
    simp only [print, Reference.display, String.toList_append, htext]
    simpa [kinds] using hlexes
  | binary op left right ihl ihr =>
    simp only [references, List.mem_append] at hrefs
    have hr := lexes_parenthesize (right.rightNeedsParens op) (ihr fun r h => hrefs r (.inr h)) hrest h
    have hop := lexes_operator op (lexes_blank (c := ' ') rfl hr)
    have hl := lexes_parenthesize (left.leftNeedsParens op) (ihl fun r h => hrefs r (.inl h))
      (breaksOff_cons rfl _) (lexes_blank (c := ' ') rfl hop)
    simpa [print, kinds] using hl

end Expr

end PropertyExpr
