import PropertyExpr.Expr.Parser
/-!
# The grammar of expressions

`Derives tier room ks e` says that the tokens `ks` are a factor, a product or a sum whose tree is `e`. The
rules are those of the documented grammar with what each of them builds, operators included (`Tier.Operates`); chains of
operators group to the left because the left part of a chain is a chain again. Nothing of the parser occurs in them. That
the parser's tables of operators are those of the rules is `Parser.operator?_eq_some_iff`.

Two limits are apart from the rules. `room` bounds how deep parentheses and minus signs nest: each takes one
level off, a sign directly before an integer none. How many operators a tree may have is asked of the tree
(`Expr.operatorCount`).

The grammar is about kinds of tokens. A parser reads a row of tokens by position, the last one standing for all
positions behind the row; `Reads` says which kinds it meets.
-/
namespace PropertyExpr.Expr

/-- What a stretch of tokens is read as; the later, the looser it holds together. -/
inductive Tier where
  | factor | product | sum
deriving DecidableEq, Repr

/-- `Over tier operand`: a `tier` is a chain of `operand`s. -/
inductive Tier.Over : Tier → Tier → Prop where
  | product : Over .product .factor
  | sum : Over .sum .product

/-- The operators of a tier: how they are written and what they build. -/
inductive Tier.Operates : Tier → Token.Kind → Operator → Prop where
  | star : Operates .product .star .mul
  | slash : Operates .product .slash .div
  | plus : Operates .sum .plus .add
  | minus : Operates .sum .minus .sub

/-- The tokens of a tier, its tree, and how many levels there are for what nests in it. -/
inductive Derives : Tier → Nat → List Token.Kind → Expr → Prop where
  | integer {room : Nat} {n : UInt64} {i : Int64} (value : i.toInt = n.toNat) :
      Derives .factor room [.integer n] (.number i)
  | string {room : Nat} {s : String} : Derives .factor room [.string s] (.string s)
  | reference {room : Nat} {name field : String} {n : UInt64} {rank : Int64} (value : rank.toInt = n.toNat)
      (positive : 1 ≤ rank.toInt) :
      Derives .factor room
        [.ident name, .leftBracket, .integer n, .rightBracket, .dot, .ident field] (.ref ⟨name, rank, field⟩)
  | paren {room : Nat} {ks : List Token.Kind} {e : Expr} (inner : Derives .sum room ks e) :
      Derives .factor (room + 1) (.leftParen :: (ks ++ [.rightParen])) e
  /-- The sign applies before the range is checked. -/
  | signedInteger {room : Nat} {n : UInt64} {i : Int64} (value : i.toInt = -n.toNat) :
      Derives .factor room [.minus, .integer n] (.number i)
  | negatedNumber {room : Nat} {ks : List Token.Kind} {m i : Int64} (operand : Derives .factor room ks (.number m))
      (notInteger : ∀ n, ks ≠ [.integer n]) (value : i.toInt = -m.toInt) :
      Derives .factor (room + 1) (.minus :: ks) (.number i)
  | negated {room : Nat} {ks : List Token.Kind} {e : Expr} (operand : Derives .factor room ks e)
      (notNumber : ∀ m, e ≠ .number m) :
      Derives .factor (room + 1) (.minus :: ks) (.binary .sub (.number 0) e)
  | single {tier below : Tier} {room : Nat} {ks : List Token.Kind} {e : Expr} (above : tier.Over below)
      (operand : Derives below room ks e) :
      Derives tier room ks e
  | chain {tier below : Tier} {room : Nat} {ks ks' : List Token.Kind} {k : Token.Kind} {op : Operator}
      {left right : Expr} (above : tier.Over below) (first : Derives tier room ks left)
      (operator : tier.Operates k op) (second : Derives below room ks' right) :
      Derives tier room (ks ++ k :: ks') (.binary op left right)

/-! ## Operators -/

/-- A tier has one kind of operand. -/
theorem Tier.Over.unique {tier below below' : Tier} (above : tier.Over below) (above' : tier.Over below') :
    below = below' := by
  cases above <;> cases above' <;> rfl

namespace Tier.Operates

variable {tier : Tier} {k : Token.Kind} {op op' : Operator}

/-- A token is one operator of a tier at most. -/
theorem unique (h : tier.Operates k op) (h' : tier.Operates k op') : op = op' := by
  cases h <;> cases h' <;> rfl

/-- No operator is the end of the block. -/
theorem ne_blockEnd (h : tier.Operates k op) : k ≠ .blockEnd := by
  cases h <;> simp

end Tier.Operates

/-! ## What derivations have in common -/

theorem Derives.ne_nil {tier : Tier} {room : Nat} {ks : List Token.Kind} {e : Expr}
    (h : Derives tier room ks e) : ks ≠ [] := by
  induction h with
  | single _ _ ih => exact ih
  | _ => simp

/-- The end of the block belongs to no expression. -/
theorem Derives.blockEnd_notMem {tier : Tier} {room : Nat} {ks : List Token.Kind} {e : Expr}
    (h : Derives tier room ks e) : Token.Kind.blockEnd ∉ ks := by
  induction h with
  | integer | string | reference | signedInteger => simp
  | paren _ ih | negatedNumber _ _ _ ih | negated _ _ ih => simp [ih]
  | single _ _ ih => exact ih
  | chain _ _ operator _ ih₁ ih₂ => simp [ih₁, ih₂, operator.ne_blockEnd.symm]

/-! ## Chains from their operands

A chain is its first operand with links behind it. A parser meets the operands in this order, while the rules
take the last one off first. -/

/-- `Links tier Operand left ks e`: operators and operands `ks` behind the tree `left` make it `e`. -/
inductive Links (tier : Tier) (Operand : List Token.Kind → Expr → Prop) : Expr → List Token.Kind → Expr → Prop where
  | done {e : Expr} : Links tier Operand e [] e
  | link {left right e : Expr} {k : Token.Kind} {op : Operator} {ks ks' : List Token.Kind}
      (operator : tier.Operates k op) (operand : Operand ks right)
      (behind : Links tier Operand (.binary op left right) ks' e) :
      Links tier Operand left (k :: (ks ++ ks')) e

section
variable {tier : Tier} {Operand : List Token.Kind → Expr → Prop} {left e : Expr}
  {ks : List Token.Kind}

/-- A chain goes on at its end. -/
theorem Links.snoc {k : Token.Kind} {op : Operator} {ks' : List Token.Kind} {right : Expr}
    (h : Links tier Operand left ks e) (operator : tier.Operates k op) (operand : Operand ks' right) :
    Links tier Operand left (ks ++ k :: ks') (.binary op e right) := by
  induction h with
  | done => simpa using Links.link operator operand .done
  | link operator' operand' _ ih => simpa using Links.link operator' operand' ih

theorem Links.imp {Operand' : List Token.Kind → Expr → Prop} (h : ∀ ks e, Operand ks e → Operand' ks e)
    (links : Links tier Operand left ks e) : Links tier Operand' left ks e := by
  induction links with
  | done => exact .done
  | link operator operand _ ih => exact .link operator (h _ _ operand) ih

/-- The links of a chain only add operators. -/
theorem Links.operatorCount_le (h : Links tier Operand left ks e) :
    left.operatorCount ≤ e.operatorCount := by
  induction h with
  | done => exact Nat.le_refl _
  | link _ _ _ ih => simp only [Expr.operatorCount] at ih; omega

end

/-- A factor that `Holds`, or a chain of operands that do. -/
inductive FromOperands (Holds : Tier → Nat → List Token.Kind → Expr → Prop) :
    Tier → Nat → List Token.Kind → Expr → Prop where
  | factor {room : Nat} {ks : List Token.Kind} {e : Expr} (h : Holds .factor room ks e) :
      FromOperands Holds .factor room ks e
  | operands {tier below : Tier} {room : Nat} {ks ks' : List Token.Kind} {left e : Expr} (above : tier.Over below)
      (first : Holds below room ks left) (links : Links tier (Holds below room) left ks' e) :
      FromOperands Holds tier room (ks ++ ks') e

section
variable {Holds : Tier → Nat → List Token.Kind → Expr → Prop} {tier below : Tier}
  {room : Nat} {ks ks' : List Token.Kind} {left right : Expr}

theorem FromOperands.chain {k : Token.Kind} {op : Operator} (above : tier.Over below)
    (first : FromOperands Holds tier room ks left) (operator : tier.Operates k op)
    (second : Holds below room ks' right) : FromOperands Holds tier room (ks ++ k :: ks') (.binary op left right) := by
  cases first with
  | factor => cases above
  | operands above' first links =>
    obtain rfl := above.unique above'
    rw [List.append_assoc]
    exact .operands above first (links.snoc operator second)

end

/-- What is proved of factors, and of chains from their operands, holds of all that is derived. -/
theorem Derives.byOperands {motive : Tier → Nat → List Token.Kind → Expr → Prop}
    (integer : ∀ {room n} {i : Int64}, i.toInt = n.toNat → motive .factor room [.integer n] (.number i))
    (string : ∀ {room s}, motive .factor room [.string s] (.string s))
    (reference : ∀ {room name field n} {rank : Int64}, rank.toInt = n.toNat → 1 ≤ rank.toInt →
      motive .factor room
        [.ident name, .leftBracket, .integer n, .rightBracket, .dot, .ident field] (.ref ⟨name, rank, field⟩))
    (paren : ∀ {room ks e}, motive .sum room ks e →
      motive .factor (room + 1) (.leftParen :: (ks ++ [.rightParen])) e)
    (signedInteger : ∀ {room n} {i : Int64}, i.toInt = -n.toNat →
      motive .factor room [.minus, .integer n] (.number i))
    (negatedNumber : ∀ {room ks} {m i : Int64}, motive .factor room ks (.number m) → (∀ n, ks ≠ [.integer n]) →
      Derives .factor room ks (.number m) → i.toInt = -m.toInt →
      motive .factor (room + 1) (.minus :: ks) (.number i))
    (negated : ∀ {room ks e}, motive .factor room ks e → Derives .factor room ks e → (∀ m, e ≠ .number m) →
      motive .factor (room + 1) (.minus :: ks) (.binary .sub (.number 0) e))
    (operands : ∀ {tier below room ks ks' left e}, tier.Over below →
      motive below room ks left → Links tier (motive below room) left ks' e →
      motive tier room (ks ++ ks') e)
    {tier : Tier} {room : Nat} {ks : List Token.Kind} {e : Expr} (h : Derives tier room ks e) :
    motive tier room ks e := by
  have close {tier : Tier} {room : Nat} {ks : List Token.Kind} {e : Expr} :
      FromOperands motive tier room ks e → motive tier room ks e := by
    rintro (h | ⟨above, first, links⟩)
    · exact h
    · exact operands above first links
  suffices FromOperands motive tier room ks e from close this
  induction h with
  | integer value => exact .factor (integer value)
  | string => exact .factor string
  | reference value positive => exact .factor (reference value positive)
  | paren _ ih => exact .factor (paren (close ih))
  | signedInteger value => exact .factor (signedInteger value)
  | negatedNumber operand notInteger value ih => exact .factor (negatedNumber (close ih) notInteger operand value)
  | negated operand notNumber ih => exact .factor (negated (close ih) operand notNumber)
  | single above _ ih => simpa using FromOperands.operands above (close ih) .done
  | chain above _ operator _ first second => exact first.chain above operator (close second)

namespace Parser

/-! ## The operators of the parser -/

/-- The table of operators that the parser uses for a tier. -/
def operator? : Tier → Token.Kind → Option Operator
  | .factor => fun _ => none
  | .product => productOperator?
  | .sum => sumOperator?

/-- The parser's tables are those of the grammar. -/
theorem operator?_eq_some_iff {tier : Tier} {k : Token.Kind} {op : Operator} :
    operator? tier k = some op ↔ tier.Operates k op := by
  constructor
  · intro h
    cases tier with
    | factor => cases h
    | product | sum => cases k <;> cases h <;> constructor
  · rintro (_ | _ | _ | _) <;> rfl

theorem operator?_eq_none_iff {tier : Tier} {k : Token.Kind} :
    operator? tier k = none ↔ ∀ op, ¬ tier.Operates k op := by
  simp only [Option.eq_none_iff_forall_ne_some, ne_eq, operator?_eq_some_iff]

/-! ## Reading a row -/

/-- The kind of the token that is current at `position`. -/
def kindAt (tokens : Array Token) (position : Nat) : Token.Kind := (tokenAt tokens position).kind

/-- The place of the token that is current at `position`. -/
def locationAt (tokens : Array Token) (position : Nat) : Location := (tokenAt tokens position).location

/-- From `position` on, the kinds `ks` are read one after the other. -/
def Reads (tokens : Array Token) : (position : Nat) → List Token.Kind → Prop
  | _, [] => True
  | position, k :: ks => kindAt tokens position = k ∧ Reads tokens (position + 1) ks

variable {tokens : Array Token} {position : Nat}

@[simp] theorem reads_nil : Reads tokens position [] := trivial

@[simp] theorem reads_cons {k : Token.Kind} {ks : List Token.Kind} :
    Reads tokens position (k :: ks) ↔ kindAt tokens position = k ∧ Reads tokens (position + 1) ks := Iff.rfl

@[simp] theorem reads_append {ks ks' : List Token.Kind} :
    Reads tokens position (ks ++ ks') ↔ Reads tokens position ks ∧ Reads tokens (position + ks.length) ks' := by
  induction ks generalizing position with
  | nil => simp
  | cons k ks ih => simp [ih, and_assoc, Nat.add_assoc, Nat.add_comm 1]

end Parser

end PropertyExpr.Expr
