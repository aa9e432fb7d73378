import PropertyExpr.Proofs.ParserCorrect
import PropertyExpr.Proofs.Phrases
/-!
# The leftmost token that does not go on

`unexpected_leftmost` — the token that the parser calls unexpected is the leftmost at which a row stops being the
beginning of an expression: what stands before it can be gone on with, with the token it cannot, and if it is the end
of the block, what stands before it is not complete.

Whatever rule a run stops by with an unexpected token (`Fails`), it has read tokens that its tier breaks off behind.
This is an induction on the rules, in which what has been read as a whole is a phrase.
-/
namespace PropertyExpr.Expr.Parser

variable {tokens : Array Token} {tier : Tier} {room p n q m depth : Nat} {stop : Stop} {expected found hint : String}

/-- The token at `q` is refused, and behind the tokens from `p` to it a `tier` breaks off. -/
def BreaksOffAt (tokens : Array Token) (tier : Tier) (depth p : Nat) (stop : Stop) (q : Nat) : Prop :=
  ∃ expected ks, stop = unexpectedAt tokens expected q ∧ q = p + ks.length ∧ Reads tokens p ks ∧
    tier.BreaksOff depth ks (kindAt tokens q)

/-- What breaks off behind a token breaks off with the token before it. -/
theorem BreaksOffAt.behind {tier' : Tier} {depth' : Nat} {k : Token.Kind}
    (h : BreaksOffAt tokens tier' depth' (p + 1) stop q) (hk : kindAt tokens p = k)
    (behind : ∀ {ks k'}, tier'.BreaksOff depth' ks k' → tier.BreaksOff depth (k :: ks) k') :
    BreaksOffAt tokens tier depth p stop q := by
  obtain ⟨expected, ks, hstop, hq, reads, breaks⟩ := h
  refine ⟨expected, k :: ks, hstop, ?_, ⟨hk, reads⟩, behind breaks⟩
  rw [hq, List.length_cons, Nat.add_assoc, Nat.add_comm 1]

/-! ## What does not go on -/

theorem StartsNoFactor.step {k : Token.Kind} (h : StartsNoFactor k) : (Awaits.operand depth).step k = none := by
  cases k with
  | integer | string | ident | minus | leftParen => exact h.elim
  | _ => rfl

/-- Behind a sum only the parenthesis before it may be closed, and only a whole expression may end the block. -/
theorem step_of_closed {k : Token.Kind} (closed : Tier.sum.Closed k) (hk : k = .rightParen → depth = 0)
    (hend : k = .blockEnd → depth ≠ 0) : (Awaits.operator depth).step k = none := by
  cases k with
  | star => exact absurd .star (closed.1 _)
  | slash => exact absurd .slash (closed.1 _)
  | plus => exact absurd .plus (closed.2 _)
  | minus => exact absurd .minus (closed.2 _)
  | rightParen =>
    rw [hk rfl]
    rfl
  | blockEnd =>
    obtain ⟨depth, rfl⟩ := Nat.exists_eq_succ_of_ne_zero (hend rfl)
    rfl
  | _ => rfl

/-! ## Stops -/

/-- A reference that is incomplete breaks off. -/
theorem TailFails.breaksOffAt {name : String} (hname : kindAt tokens p = .ident name)
    (h : TailFails tokens (p + 1) stop q) (hcause : stop.toSyntaxError.cause = .unexpectedToken expected found hint) :
    BreaksOffAt tokens .factor depth p stop q := by
  cases h with
  | opening hk =>
    refine ⟨_, [.ident name], rfl, rfl, ⟨hname, trivial⟩, ?_⟩
    exact .of_step ⟨[.leftBracket, .integer 1, .rightBracket, .dot, .ident name], .reference⟩ rfl
      (Awaits.step_eq_none hk)
  | rank hreads hr =>
    refine ⟨_, [.ident name, .leftBracket], rfl, rfl, ⟨hname, hreads⟩, ?_⟩
    refine .of_step ⟨[.integer 1, .rightBracket, .dot, .ident name], .reference⟩ rfl (Awaits.step_eq_none ?_)
    rintro ⟨n, hn⟩
    exact hr n hn
  | zero | overflow => cases hcause
  | @closing n rank hreads _ _ hk =>
    refine ⟨_, [.ident name, .leftBracket, .integer n], rfl, rfl, ⟨hname, hreads⟩, ?_⟩
    exact .of_step ⟨[.rightBracket, .dot, .ident name], .reference⟩ rfl (Awaits.step_eq_none hk)
  | @dot n rank hreads _ _ hk =>
    refine ⟨_, [.ident name, .leftBracket, .integer n, .rightBracket], rfl, rfl, ⟨hname, hreads⟩, ?_⟩
    exact .of_step ⟨[.dot, .ident name], .reference⟩ rfl (Awaits.step_eq_none hk)
  | @field n rank hreads _ _ hk =>
    refine ⟨_, [.ident name, .leftBracket, .integer n, .rightBracket, .dot], rfl, rfl, ⟨hname, hreads⟩, ?_⟩
    refine .of_step ⟨[.ident name], .reference⟩ rfl (Awaits.step_eq_none ?_)
    rintro ⟨field, hfield⟩
    exact hk field hfield

/-- **Where a run breaks off** that meets an unexpected token. -/
theorem Fails.breaksOffAt (h : Fails tokens tier room p n stop q m)
    (hcause : stop.toSyntaxError.cause = .unexpectedToken expected found hint) :
    BreaksOffAt tokens tier depth p stop q := by
  induction h generalizing depth with
  | other h => exact ⟨_, [], rfl, rfl, trivial, .of_step ⟨[.integer 0], .integer⟩ rfl h.step⟩
  | integer | parenTooDeep | signedInteger | signTooDeep | chargeSign | chargeOperator => cases hcause
  | negation =>
    unfold negationOverflow at hcause
    split at hcause <;> cases hcause
  | tail hname ht => exact ht.breaksOffAt hname hcause
  | inParen hk _ ih => exact (ih hcause).behind hk .paren
  | @unclosed room p n ks e hreads inner charged closed hk =>
    have hstep : (Awaits.operator (depth + 1)).step (kindAt tokens (p + 1 + ks.length)) = none :=
      step_of_closed closed (absurd · hk) fun _ => Nat.succ_ne_zero depth
    refine ⟨_, .leftParen :: ks, rfl, ?_, hreads, .unclosed inner.phrase hstep⟩
    rw [List.length_cons, Nat.add_assoc, Nat.add_comm 1]
  | behindSign hk _ _ ih => exact (ih hcause).behind hk .negated
  | first above _ ih =>
    obtain ⟨expected, ks, rfl, rfl, reads, breaks⟩ := ih hcause
    exact ⟨expected, ks, rfl, rfl, reads, breaks.first above⟩
  | @second tier below room p n q m stop ks k op left above hreads derived operator _ _ ih =>
    obtain ⟨expected, ks', rfl, rfl, reads', breaks⟩ := ih hcause
    obtain ⟨reads, hk, -⟩ := reads_append.1 hreads
    refine ⟨expected, ks ++ k :: ks', rfl, ?_, ?_, breaks.second above derived.phrase operator⟩
    · rw [List.length_append, List.length_cons]
      omega
    · exact reads_append.2 ⟨reads, hk, reads'⟩

/-- Where a call breaks off, with no parenthesis open around it. -/
theorem breaksOffAt_of_parse {s t : Progress} (hs : s.depth = 0) (h : parse tokens s = (.error stop, t))
    (hcause : stop.toSyntaxError.cause = .unexpectedToken expected found hint) :
    BreaksOffAt tokens .sum 0 s.position stop t.position := by
  have hends := callEnds tokens hs
  rw [h] at hends
  cases hends with
  | @unfinished ks e derived reads closed hk =>
    refine ⟨_, ks, rfl, rfl, reads, ?_⟩
    have hphrase := derived.phrase
    have hstep := step_of_closed closed (fun _ => rfl) (absurd · hk)
    exact .of_step ⟨[], by rwa [List.append_nil]⟩ (hphrase.pass 0) hstep
  | failed fails => exact fails.breaksOffAt hcause

/-! ## Rows -/

theorem tokenAt_append (pre rest : List Token) (t : Token) : tokenAt (pre ++ t :: rest).toArray pre.length = t := by
  simp [tokenAt]

/-- What is read of a row, up to its end token at most, is what a front of the row consists of. -/
theorem exists_front_of_reads (pre : List Token) {body : List Token} {last : Token} (hlast : last.kind = .blockEnd)
    {ks : List Token.Kind} (hks : .blockEnd ∉ ks) (h : Reads (pre ++ (body ++ [last])).toArray pre.length ks) :
    ∃ front t behind, body ++ [last] = front ++ t :: behind ∧ front.map Token.kind = ks := by
  induction body generalizing pre ks with
  | nil =>
    cases ks with
    | nil => exact ⟨[], last, [], rfl, rfl⟩
    | cons k ks =>
      obtain ⟨hk, -⟩ := h
      rw [kindAt, List.nil_append, tokenAt_append, hlast] at hk
      exact absurd (hk ▸ List.mem_cons_self) hks
  | cons u body ih =>
    cases ks with
    | nil => exact ⟨[], u, body ++ [last], rfl, rfl⟩
    | cons k ks =>
      obtain ⟨hk, hrest⟩ := h
      rw [kindAt, List.cons_append, tokenAt_append] at hk
      have hrow : pre ++ (u :: body ++ [last]) = (pre ++ [u]) ++ (body ++ [last]) := by simp
      have hlength : pre.length + 1 = (pre ++ [u]).length := by simp
      rw [hrow, hlength] at hrest
      obtain ⟨front, t, behind, hbody, hfront⟩ := ih (pre ++ [u]) (mt (List.mem_cons_of_mem _) hks) hrest
      refine ⟨u :: front, t, behind, ?_, ?_⟩
      · rw [List.cons_append, hbody, List.cons_append]
      · rw [List.map_cons, hk, hfront]

/-- **The unexpected token is the leftmost that does not go on.** In a row that ends with an end token, what stands
before it can be gone on with to an expression, and what ends with it cannot; if it is the end of the block, what stands
before it is no expression. It is the token that is marked, and at which the parser stays. -/
theorem unexpected_leftmost {body : List Token} {last : Token} (hlast : last.kind = .blockEnd) {offset length : Nat}
    {s : Progress} (h : parse (body ++ [last]).toArray .start =
      (.error (.refused ⟨.unexpectedToken expected found hint, offset, length⟩), s)) :
    ∃ t, (body ++ [last])[s.position]? = some t ∧ offset = t.location.offset ∧ length = t.location.length ∧
      found = t.kind.display ∧ BreaksAt ((body ++ [last]).map Token.kind) s.position := by
  obtain ⟨expected', ks, hstop, hposition, reads, breaks⟩ := breaksOffAt_of_parse rfl h rfl
  have hks : .blockEnd ∉ ks := by
    obtain ⟨rest, hrest⟩ := breaks.viable
    exact fun hmem => hrest.blockEnd_notMem (List.mem_append_left rest hmem)
  obtain ⟨front, t, behind, hrow, rfl⟩ := exists_front_of_reads [] hlast hks reads
  have hsize : s.position = front.length := by
    rw [hposition, List.length_map]
    exact Nat.zero_add _
  rw [hsize, hrow, kindAt, tokenAt_append] at breaks
  rw [hsize, hrow, unexpectedAt, kindAt, stopAt, locationAt, tokenAt_append] at hstop
  rw [hsize, hrow]
  cases hstop
  refine ⟨t, by simp, rfl, rfl, rfl, ?_⟩
  rw [List.map_append, List.map_cons]
  have hbreaks := breaks.breaksAt (behind.map Token.kind)
  rwa [List.length_map] at hbreaks

/-- A rank that is none, behind an open parenthesis. -/
theorem unexpected_leftmost_rank :
    parse ([.leftParen, .ident "row", .leftBracket, .minus, .integer 1, .rightBracket].map (⟨·, .origin⟩) ++
        [⟨.blockEnd, .origin⟩] : List Token).toArray .start =
      (.error (.refused ⟨.unexpectedToken "a rank" "-" "check syntax", 0, 0⟩), ⟨3, 0, 0⟩) ∧
    BreaksAt [.leftParen, .ident "row", .leftBracket, .minus, .integer 1, .rightBracket, .blockEnd] 3 := by
  have hparse : parse ([.leftParen, .ident "row", .leftBracket, .minus, .integer 1, .rightBracket].map (⟨·, .origin⟩) ++
        [⟨.blockEnd, .origin⟩] : List Token).toArray .start =
      (.error (.refused ⟨.unexpectedToken "a rank" "-" "check syntax", 0, 0⟩), ⟨3, 0, 0⟩) := rfl
  obtain ⟨-, -, -, -, -, hbreaks⟩ := unexpected_leftmost rfl hparse
  exact ⟨hparse, hbreaks⟩

end PropertyExpr.Expr.Parser
