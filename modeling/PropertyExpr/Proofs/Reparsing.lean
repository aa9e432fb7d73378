import PropertyExpr.Proofs.PrintedKinds
/-!
# Parsing what was printed

`reparses_iff` — an expression is the tree of some text exactly if it is the tree of the text it is printed as, and
exactly if its references are well formed and its operators and printed parentheses stay within the limits. That
printing never goes beyond the limits that a text stayed in comes from `parenDepth_le_of_derives`.
-/
namespace PropertyExpr

/-! ## How deep parentheses nest in a text -/

namespace Text

/-- Where in a text a character stands: among tokens, in a string literal, or behind a backslash in one. -/
inductive Inside where
  | code | string | escape

/-- How deep parentheses outside of string literals nest in a text, in front of which `depth` are open. -/
def nestingFrom : Inside → (depth : Nat) → List Char → Nat
  | _, depth, [] => depth
  | .escape, depth, _ :: cs => nestingFrom .string depth cs
  | .string, depth, c :: cs =>
    nestingFrom (if c = '\\' then .escape else if c = '"' then .code else .string) depth cs
  | .code, depth, c :: cs =>
    if c = '(' then nestingFrom .code (depth + 1) cs
    else if c = ')' then max depth (nestingFrom .code (depth - 1) cs)
    else nestingFrom (if c = '"' then .string else .code) depth cs

def nesting (cs : List Char) : Nat := nestingFrom .code 0 cs

theorem le_nestingFrom (inside : Inside) (depth : Nat) (cs : List Char) : depth ≤ nestingFrom inside depth cs := by
  induction cs generalizing inside depth with
  | nil => cases inside <;> exact Nat.le_refl _
  | cons c cs ih =>
    cases inside with
    | escape => exact ih _ _
    | string => exact ih _ _
    | code =>
      rw [nestingFrom]
      split
      · exact Nat.le_of_succ_le (ih _ _)
      split
      · exact Nat.le_max_left _ _
      · exact ih _ _

/-- Characters that are neither parentheses nor quotes. -/
theorem nestingFrom_plain {cs : List Char} (h : ∀ c ∈ cs, c ≠ '(' ∧ c ≠ ')' ∧ c ≠ '"') (depth : Nat)
    (rest : List Char) : nestingFrom .code depth (cs ++ rest) = nestingFrom .code depth rest := by
  induction cs with
  | nil => rfl
  | cons c cs ih =>
    obtain ⟨hopen, hclose, hquote⟩ := h c (by simp)
    rw [List.cons_append, nestingFrom, if_neg hopen, if_neg hclose, if_neg hquote,
      ih fun a ha => h a (List.mem_cons_of_mem _ ha)]

theorem nestingFrom_escape (cs : List Char) (depth : Nat) (rest : List Char) :
    nestingFrom .string depth (Expr.escape cs ++ '"' :: rest) = nestingFrom .code depth rest := by
  induction cs with
  | nil => rfl
  | cons c cs ih =>
    rw [Expr.escape]
    split
    · simpa [nestingFrom] using ih
    · rename_i hc
      simp only [not_or] at hc
      simpa [nestingFrom, hc] using ih

end Text

namespace Expr

open Text (nestingFrom le_nestingFrom nestingFrom_plain nestingFrom_escape)

/-- The characters that names, integers and references are written with. -/
def IsWordPart (c : Char) : Prop := isIdentifierPart c ∨ c ∈ ['-', '[', ']', '.']

theorem isWordPart_of_isIdentifier {name : String} (h : isIdentifier name) (c : Char) (hc : c ∈ name.toList) :
    IsWordPart c := by
  obtain ⟨start, cs, hcs, -, hparts⟩ := exists_cons_of_isIdentifier h
  exact .inl (hparts c (hcs ▸ hc))

theorem isWordPart_of_mem_toString {n : Int} (c : Char) (hc : c ∈ (toString n).toList) : IsWordPart c := by
  have hdigits (h : c ∈ Nat.toDigits 10 n.natAbs) : IsWordPart c :=
    .inl (isIdentifierPart_of_isDigit (isDigit_of_mem_toDigits c h))
  rw [toList_toString] at hc
  split at hc
  · rcases List.mem_cons.1 hc with rfl | hc
    · exact .inr (by simp)
    · exact hdigits hc
  · exact hdigits hc

theorem isWordPart_of_mem_display {r : Reference} (h : r.defect? = none) (c : Char) (hc : c ∈ r.display.toList) :
    IsWordPart c := by
  obtain ⟨hname, -, hfield⟩ := Reference.defect?_eq_none_iff.1 h
  simp only [Reference.display, String.toList_append, List.mem_append] at hc
  rcases hc with (((hc | hc) | hc) | hc) | hc
  · exact isWordPart_of_isIdentifier hname c hc
  · obtain rfl : c = '[' := by simpa using hc
    exact .inr (by simp)
  · exact isWordPart_of_mem_toString c hc
  · rcases (by simpa using hc : c = ']' ∨ c = '.') with rfl | rfl <;> exact .inr (by simp)
  · exact isWordPart_of_isIdentifier hfield c hc

theorem plain_of_isWordPart {c : Char} (h : IsWordPart c) : c ≠ '(' ∧ c ≠ ')' ∧ c ≠ '"' := by
  refine ⟨?_, ?_, ?_⟩ <;> (rintro rfl; rcases h with h | h <;> exact absurd h (by decide))

theorem nestingFrom_parenthesize {text : List Char} {levels : Nat} (parens : Bool)
    (htext : ∀ (depth : Nat) (rest : List Char), nestingFrom .code depth (text ++ rest) =
      max (depth + levels) (nestingFrom .code depth rest)) (depth : Nat) (rest : List Char) :
    nestingFrom .code depth (parenthesize parens text ++ rest) =
      max (depth + (levels + parens.toNat)) (nestingFrom .code depth rest) := by
  cases parens with
  | false => exact htext depth rest
  | true =>
    have hle := le_nestingFrom .code depth rest
    have hopen : nestingFrom .code depth ('(' :: (text ++ ')' :: rest)) =
        nestingFrom .code (depth + 1) (text ++ ')' :: rest) := rfl
    have hclose : nestingFrom .code (depth + 1) (')' :: rest) = max (depth + 1) (nestingFrom .code depth rest) := rfl
    simp only [parenthesize, if_true, List.cons_append, List.append_assoc, List.nil_append, hopen, htext, hclose,
      Bool.toNat_true]
    omega

/-- **The parentheses in a printed text** nest as deep as `parenDepth` says. -/
theorem nestingFrom_print (e : Expr) (hrefs : ∀ r ∈ e.references, r.defect? = none) (depth : Nat)
    (rest : List Char) : nestingFrom .code depth (e.print ++ rest) =
      max (depth + e.parenDepth) (nestingFrom .code depth rest) := by
  have hle := le_nestingFrom .code depth rest
  induction e generalizing depth rest with
  | number n =>
    rw [print, nestingFrom_plain fun c hc => plain_of_isWordPart (isWordPart_of_mem_toString c hc), parenDepth]
    omega
  | string s =>
    have hopen : nestingFrom .code depth ('"' :: (escape s.toList ++ '"' :: rest)) =
        nestingFrom .string depth (escape s.toList ++ '"' :: rest) := rfl
    simp only [print, List.cons_append, List.append_assoc, List.nil_append, hopen, nestingFrom_escape, parenDepth]
    omega
  | ref r =>
    have hdefect := hrefs r (by simp [references])
    rw [print, nestingFrom_plain fun c hc => plain_of_isWordPart (isWordPart_of_mem_display hdefect c hc), parenDepth]
    omega
  | binary op left right ihl ihr =>
    simp only [references, List.mem_append] at hrefs
    have hl := nestingFrom_parenthesize (left.leftNeedsParens op) fun depth rest =>
      ihl (fun r h => hrefs r (.inl h)) depth rest (le_nestingFrom _ _ _)
    have hr := nestingFrom_parenthesize (right.rightNeedsParens op) fun depth rest =>
      ihr (fun r h => hrefs r (.inr h)) depth rest (le_nestingFrom _ _ _)
    have hop (rest : List Char) : nestingFrom .code depth (' ' :: (op.symbol.toList ++ ' ' :: rest)) =
        nestingFrom .code depth rest := by
      cases op <;> rfl
    simp only [print, List.append_assoc, List.cons_append, hl, hop, hr, parenDepth]
    omega

theorem nesting_print (e : Expr) (hrefs : ∀ r ∈ e.references, r.defect? = none) :
    Text.nesting e.print = e.parenDepth := by
  have h := nestingFrom_print e hrefs 0 []
  rw [List.append_nil] at h
  simpa [Text.nesting, nestingFrom] using h

/-! ## What parsed trees have in common -/

/-- References are well formed if the names in them are identifiers. -/
theorem references_of_derives {tier : Tier} {room : Nat} {ks : List Token.Kind} {e : Expr}
    (h : Derives tier room ks e) (hnames : ∀ name, .ident name ∈ ks → isIdentifier name) :
    ∀ r ∈ e.references, r.defect? = none := by
  induction h with
  | reference value positive =>
    intro r hr
    obtain rfl := List.mem_singleton.1 hr
    exact Reference.defect?_eq_none_iff.2 ⟨hnames _ (by simp), positive, hnames _ (by simp)⟩
  | paren _ ih => exact ih fun name h => hnames name (by simp [h])
  | negated _ _ ih =>
    intro r hr
    exact ih (fun name h => hnames name (by simp [h])) r (by simpa [references] using hr)
  | single _ _ ih => exact ih hnames
  | chain _ _ _ _ first second =>
    intro r hr
    rcases List.mem_append.1 hr with hr | hr
    · exact first (fun name h => hnames name (by simp [h])) r hr
    · exact second (fun name h => hnames name (by simp [h])) r hr
  | _ => rintro _ ⟨⟩

end Expr

/-- The names in a text are identifiers. -/
theorem isIdentifier_of_lexes {cs : List Char} {ks : List Token.Kind} (h : Lexes cs ks) (name : String)
    (hname : .ident name ∈ ks) : isIdentifier name := by
  induction h with
  | done => cases hname
  | token front read _ ih =>
    rcases List.mem_cons.1 hname with rfl | hname
    · exact Lexeme.isIdentifier_of_read read
    · exact ih hname

namespace Expr

theorem parseAt_eq_ok_iff (c : Cursor) (e : Expr) : parseAt c = .ok e ↔
    ∃ ks, Lexes c.rest ks ∧ Derives .sum maxDepth ks e ∧ e.operatorCount ≤ maxOperators := by
  have hparse {ts : List Token} {ks : List Token.Kind} (htokens : c.tokens = .ok ts) (hrow : Cursor.Row ts ks) :
      parseAt c = .ok e ↔ Derives .sum maxDepth ks e ∧ e.operatorCount ≤ maxOperators := by
    obtain ⟨body, last, rfl, rfl, hbody, hlast⟩ := hrow
    rw [← Parser.parse_row_eq_ok_iff hbody hlast, parseAt, htokens]
    simp only
    cases (Parser.parse (body ++ [last]).toArray .start).1 with
    | error stop => exact iff_of_false (by rintro ⟨⟩) (by rintro ⟨⟩)
    | ok e' => constructor <;> (rintro ⟨⟩; rfl)
  constructor
  · intro h
    cases htokens : c.tokens with
    | error e' =>
      rw [parseAt, htokens] at h
      cases h
    | ok ts =>
      obtain ⟨ks, hlexes, hrow⟩ := Cursor.lexes_of_tokens c ts htokens
      exact ⟨ks, hlexes, (hparse htokens hrow).1 h⟩
  · rintro ⟨ks, hlexes, h⟩
    obtain ⟨ts, htokens, hrow⟩ := Cursor.tokens_of_lexes hlexes c rfl
    exact (hparse htokens hrow).2 h

/-- What the parser's trees have in common. -/
theorem bounds_of_parseAt {c : Cursor} {e : Expr} (h : parseAt c = .ok e) :
    (∀ r ∈ e.references, r.defect? = none) ∧ e.operatorCount ≤ maxOperators ∧ e.parenDepth ≤ maxDepth := by
  obtain ⟨ks, hlexes, derived, hcount⟩ := (parseAt_eq_ok_iff c e).1 h
  have hdepth := parenDepth_le_of_derives derived
  exact ⟨references_of_derives derived (isIdentifier_of_lexes hlexes), hcount, by omega⟩

/-- A tree with well-formed references and within the limits is parsed again wherever it is printed. -/
theorem parseAt_print {e : Expr} (hrefs : ∀ r ∈ e.references, r.defect? = none)
    (hcount : e.operatorCount ≤ maxOperators) (hdepth : e.parenDepth ≤ maxDepth) (location : Location) :
    parseAt ⟨e.print, location⟩ = .ok e := by
  have hend : BreaksOff [] := by rintro _ ⟨⟩
  have hlexes := lexes_print e hrefs hend lexes_nil
  rw [List.append_nil, List.append_nil] at hlexes
  exact (parseAt_eq_ok_iff _ e).2
    ⟨e.kinds, hlexes, (derives_kinds e hrefs maxDepth hdepth).loosen (rank_le _), hcount⟩

/-- **Three ways to say what can be reparsed**: some text has the tree, the printed text has it, and its references
are well formed, its operators are few enough and its printed parentheses nest within the limit. -/
theorem reparses_iff (e : Expr) :
    ((∃ source, parse source = .ok e) ↔ parse e.print = .ok e) ∧
    (parse e.print = .ok e ↔ (∀ r ∈ e.references, r.defect? = none) ∧ e.operatorCount ≤ maxOperators ∧
      Text.nesting e.print ≤ maxDepth) := by
  have hprint : (∀ r ∈ e.references, r.defect? = none) ∧ e.operatorCount ≤ maxOperators ∧
      Text.nesting e.print ≤ maxDepth → parse e.print = .ok e := by
    rintro ⟨hrefs, hcount, hnesting⟩
    rw [nesting_print e hrefs] at hnesting
    have hend : BreaksOff [] := by rintro _ ⟨⟩
    have hlexes := lexes_print e hrefs hend lexes_nil
    rw [List.append_nil, List.append_nil] at hlexes
    exact (parseAt_eq_ok_iff _ e).2
      ⟨e.kinds, hlexes, (derives_kinds e hrefs maxDepth hnesting).loosen (rank_le _), hcount⟩
  have hsource : (∃ source, parse source = .ok e) → (∀ r ∈ e.references, r.defect? = none) ∧
      e.operatorCount ≤ maxOperators ∧ Text.nesting e.print ≤ maxDepth := by
    rintro ⟨source, hparse⟩
    obtain ⟨ks, hlexes, derived, hcount⟩ := (parseAt_eq_ok_iff _ e).1 hparse
    have hrefs := references_of_derives derived (isIdentifier_of_lexes hlexes)
    have hdepth := parenDepth_le_of_derives derived
    rw [nesting_print e hrefs]
    exact ⟨hrefs, hcount, by omega⟩
  exact ⟨⟨fun h => hprint (hsource h), fun h => ⟨_, h⟩⟩, fun h => hsource ⟨_, h⟩, hprint⟩

end Expr

end PropertyExpr
