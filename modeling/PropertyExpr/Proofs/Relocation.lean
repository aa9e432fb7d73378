import PropertyExpr.Proofs.Lexing
import PropertyExpr.Proofs.ParserStops
/-!
# Parsing a text somewhere else

`parseAt_moved` — what the same characters are parsed as does not depend on where they stand: the tree is the same,
and an error marks the bytes that lie as much further on as the text does. Line and column never matter.

Reading tokens is followed token by token. The parser is not run again: by `CallEnds` and `Fails` a run is decided
by the kinds of tokens, and a stop is found again in the moved row by the same rule.
-/
namespace PropertyExpr

/-- The error with the bytes it marks `k` bytes further on. -/
def SyntaxError.moved (k : Nat) (e : SyntaxError) : SyntaxError := { e with offset := e.offset + k }

/-- What parsing uses of a token: its kind and the bytes it is made of, as if they lay `k` bytes further on. -/
def Token.mark (k : Nat) (t : Token) : Token.Kind × Nat × Nat :=
  (t.kind, t.location.offset + k, t.location.length)

/-! ## Tokens -/

namespace Cursor

/-- The marks of tokens that are read, or the error moved alike. -/
def marks (k : Nat) : Except SyntaxError (List Token) → Except SyntaxError (List (Token.Kind × Nat × Nat))
  | .ok ts => .ok (ts.map (Token.mark k))
  | .error e => .error (e.moved k)

theorem marks_tokens_of_token {c d : Cursor} {t : Token} (h : c.next = (.ok t, d)) (hk : t.kind ≠ .blockEnd) (k : Nat) :
    marks k c.tokens = match marks k d.tokens with
      | .error e => .error e
      | .ok ms => .ok (t.mark k :: ms) := by
  rw [tokens_of_token h hk]
  cases d.tokens <;> rfl

theorem offset_pass (c : Cursor) (text rest : List Char) :
    (c.pass text rest).location.offset = c.location.offset + Text.byteLength text := by
  have hfold (loc : Location) : (text.foldl Location.step loc).offset = loc.offset + Text.byteLength text := by
    induction text generalizing loc with
    | nil => rfl
    | cons ch text ih =>
      rw [List.foldl_cons, ih, Text.byteLength_cons, ← Nat.add_assoc]
      rfl
  exact hfold c.location

theorem offset_skipBlanks (c : Cursor) : c.skipBlanks.location.offset =
    c.location.offset + Text.byteLength (c.rest.takeWhile Text.isBlank) := offset_pass c _ _

/-- The same characters have the same tokens elsewhere, marks moved. -/
theorem marks_tokens_moved {c c' : Cursor} {k : Nat} (hrest : c'.rest = c.rest)
    (hoffset : c'.location.offset = c.location.offset + k) : marks 0 c'.tokens = marks k c.tokens := by
  have hskip : c'.skipBlanks.location.offset = c.skipBlanks.location.offset + k := by
    rw [offset_skipBlanks, offset_skipBlanks, hrest, hoffset]
    omega
  cases hfront : c.rest.dropWhile Text.isBlank with
  | nil =>
    have hfront' : c'.rest.dropWhile Text.isBlank = [] := by rw [hrest, hfront]
    rw [tokens_of_blockEnd (next_of_blank hfront) rfl, tokens_of_blockEnd (next_of_blank hfront') rfl]
    simp only [marks, List.map_cons, List.map_nil, Token.mark, hskip, Nat.add_zero]
  | cons ch cs =>
    have hfront' : c'.rest.dropWhile Text.isBlank = ch :: cs := by rw [hrest, hfront]
    have hnext := next_of_front hfront
    have hnext' := next_of_front hfront'
    cases hread : (Lexeme.read ch cs).outcome with
    | error fault =>
      rw [locate, hread] at hnext hnext'
      rw [tokens_of_error hnext, tokens_of_error hnext']
      simp only [marks, SyntaxError.moved, hskip, Nat.add_zero, Nat.add_right_comm]
    | ok kind =>
      rw [locate, hread] at hnext hnext'
      have hk := Lexeme.ne_blockEnd_of_read hread
      have hlt := rest_next_lt hnext hk
      have hpass : (c'.skipBlanks.pass (Lexeme.read ch cs).text (Lexeme.read ch cs).rest).location.offset =
          (c.skipBlanks.pass (Lexeme.read ch cs).text (Lexeme.read ch cs).rest).location.offset + k := by
        rw [offset_pass, offset_pass, hskip]
        omega
      have hbehind : marks 0 (c'.skipBlanks.pass (Lexeme.read ch cs).text (Lexeme.read ch cs).rest).tokens =
          marks k (c.skipBlanks.pass (Lexeme.read ch cs).text (Lexeme.read ch cs).rest).tokens :=
        marks_tokens_moved rfl hpass
      rw [marks_tokens_of_token hnext hk, marks_tokens_of_token hnext' hk, hbehind]
      simp only [Token.mark, hskip, Nat.add_zero]
termination_by c.rest.length

end Cursor

/-! ## Stops -/

namespace Expr.Parser

/-- Two rows whose tokens have the same marks, those of the second moved, also where a position is behind the row. -/
structure Moved (k : Nat) (tokens tokens' : Array Token) : Prop where
  mark_getElem? : ∀ position : Nat, tokens'[position]?.map (Token.mark 0) = tokens[position]?.map (Token.mark k)
  mark_tokenAt : ∀ position, (tokenAt tokens' position).mark 0 = (tokenAt tokens position).mark k

theorem moved_of_marks {k : Nat} {ts ts' : List Token} (hne : ts ≠ [])
    (h : ts'.map (Token.mark 0) = ts.map (Token.mark k)) : Moved k ts.toArray ts'.toArray := by
  have hget (position : Nat) :
      ts'.toArray[position]?.map (Token.mark 0) = ts.toArray[position]?.map (Token.mark k) := by
    simpa using congrArg (·[position]?) h
  have hlast : ts'.toArray.back?.map (Token.mark 0) = ts.toArray.back?.map (Token.mark k) := by
    simpa using congrArg List.getLast? h
  obtain ⟨last, hts⟩ : ∃ last, ts.toArray.back? = some last := by
    simpa using ⟨ts.getLast hne, List.getLast?_eq_some_getLast hne⟩
  rw [hts, Option.map_some] at hlast
  obtain ⟨last', hts', hmark⟩ := Option.map_eq_some_iff.1 hlast
  refine ⟨hget, ?_⟩
  intro position
  have hmark_tokenAt (j : Nat) (ts : List Token) (last : Token) (hts : ts.toArray.back? = some last) :
      (tokenAt ts.toArray position).mark j = (ts.toArray[position]?.map (Token.mark j)).getD (last.mark j) := by
    rw [tokenAt, hts, Option.getD_some]
    cases ts.toArray[position]? <;> rfl
  rw [hmark_tokenAt 0 ts' last' hts', hmark_tokenAt k ts last hts, hget, hmark]

namespace Moved

variable {k : Nat} {tokens tokens' : Array Token} (h : Moved k tokens tokens')
include h

theorem kindAt_eq : kindAt tokens' = kindAt tokens := by
  funext position
  exact congrArg Prod.fst (h.mark_tokenAt position)

theorem offset_locationAt (position : Nat) :
    (locationAt tokens' position).offset = (locationAt tokens position).offset + k :=
  congrArg (·.2.1) (h.mark_tokenAt position)

theorem length_locationAt (position : Nat) :
    (locationAt tokens' position).length = (locationAt tokens position).length :=
  congrArg (·.2.2) (h.mark_tokenAt position)

theorem reads_iff (position : Nat) (ks : List Token.Kind) : Reads tokens' position ks ↔ Reads tokens position ks := by
  induction ks generalizing position with
  | nil => exact Iff.rfl
  | cons kind ks ih => rw [reads_cons, reads_cons, h.kindAt_eq, ih]

/-- A token that is refused is refused where it lies. -/
theorem stopAt_moved (cause : SyntaxError.Cause) (position : Nat) :
    (stopAt tokens' cause position).toSyntaxError = (stopAt tokens cause position).toSyntaxError.moved k := by
  simp only [stopAt, Stop.toSyntaxError, SyntaxError.mark, SyntaxError.moved, h.offset_locationAt, h.length_locationAt]

theorem unexpectedAt_moved (expected : String) (position : Nat) :
    (unexpectedAt tokens' expected position).toSyntaxError =
      (unexpectedAt tokens expected position).toSyntaxError.moved k := by
  rw [unexpectedAt, unexpectedAt, hintAt, hintAt, h.kindAt_eq]
  exact h.stopAt_moved _ position

end Moved

/-- A span keeps its length when both ends are moved. -/
theorem mark_spanTo_moved {k : Nat} (cause : SyntaxError.Cause) {start start' stop stop' : Location}
    (hstart : start'.offset = start.offset + k) (hstop : stop'.offset = stop.offset + k)
    (hlength : stop'.length = stop.length) :
    SyntaxError.mark cause (start'.spanTo stop') = (SyntaxError.mark cause (start.spanTo stop)).moved k := by
  simp only [SyntaxError.mark, SyntaxError.moved, Location.spanTo, hstart, hstop, hlength, SyntaxError.mk.injEq,
    true_and]
  omega

namespace Moved

variable {k : Nat} {tokens tokens' : Array Token} (h : Moved k tokens tokens')
include h

theorem previousAt_moved (position : Nat) :
    (previousAt tokens' position).map (fun last => (last.offset, last.length)) =
      (previousAt tokens position).map (fun last => (last.offset + k, last.length)) := by
  unfold previousAt
  split
  · simp only [Option.map_some, h.offset_locationAt, h.length_locationAt]
  · have hmark := congrArg (Option.map Prod.snd) (h.mark_getElem? (position - 1))
    rw [Option.map_map, Option.map_map] at hmark ⊢
    exact hmark

theorem negationOverflow_moved (position stop : Nat) :
    (negationOverflow tokens' position stop).toSyntaxError =
      (negationOverflow tokens position stop).toSyntaxError.moved k := by
  have hprevious := h.previousAt_moved stop
  unfold negationOverflow
  cases hlast : previousAt tokens stop with
  | none =>
    rw [hlast, Option.map_none, Option.map_eq_none_iff] at hprevious
    rw [hprevious]
    exact h.stopAt_moved _ position
  | some last =>
    rw [hlast, Option.map_some] at hprevious
    obtain ⟨last', hlast', hmarks⟩ := Option.map_eq_some_iff.1 hprevious
    obtain ⟨hoffset, hlength⟩ := Prod.mk.inj hmarks
    rw [hlast']
    exact mark_spanTo_moved _ (h.offset_locationAt position) hoffset hlength

/-- A reference that is incomplete is so in the moved row. -/
theorem tailFails {position q : Nat} {stop : Stop} (fails : TailFails tokens position stop q) :
    ∃ stop', TailFails tokens' position stop' q ∧ stop'.toSyntaxError = stop.toSyntaxError.moved k := by
  have hkind := h.kindAt_eq
  cases fails with
  | opening hk => exact ⟨_, .opening (by rwa [hkind]), h.unexpectedAt_moved _ _⟩
  | rank hreads hr => exact ⟨_, .rank ((h.reads_iff _ _).2 hreads) (by rwa [hkind]), h.unexpectedAt_moved _ _⟩
  | zero hreads => exact ⟨_, .zero ((h.reads_iff _ _).2 hreads), h.stopAt_moved _ _⟩
  | overflow hreads nonzero hn =>
    exact ⟨_, .overflow ((h.reads_iff _ _).2 hreads) nonzero hn, h.stopAt_moved _ _⟩
  | closing hreads nonzero value hk =>
    exact ⟨_, .closing ((h.reads_iff _ _).2 hreads) nonzero value (by rwa [hkind]), h.unexpectedAt_moved _ _⟩
  | dot hreads nonzero value hk =>
    exact ⟨_, .dot ((h.reads_iff _ _).2 hreads) nonzero value (by rwa [hkind]), h.unexpectedAt_moved _ _⟩
  | field hreads nonzero value hk =>
    exact ⟨_, .field ((h.reads_iff _ _).2 hreads) nonzero value (by rwa [hkind]), h.unexpectedAt_moved _ _⟩

/-- A run stops in the moved row by the same rule. -/
theorem fails {tier : Tier} {room p n q m : Nat} {stop : Stop} (fails : Fails tokens tier room p n stop q m) :
    ∃ stop', Fails tokens' tier room p n stop' q m ∧ stop'.toSyntaxError = stop.toSyntaxError.moved k := by
  have hkind := h.kindAt_eq
  induction fails with
  | other hk => exact ⟨_, .other (by rwa [hkind]), h.unexpectedAt_moved _ _⟩
  | integer hk hv => exact ⟨_, .integer (by rwa [hkind]) hv, h.stopAt_moved _ _⟩
  | tail hk ht =>
    obtain ⟨stop', ht', hstop⟩ := h.tailFails ht
    exact ⟨stop', .tail (by rwa [hkind]) ht', hstop⟩
  | parenTooDeep hk => exact ⟨_, .parenTooDeep (by rwa [hkind]), h.stopAt_moved _ _⟩
  | inParen hk _ ih =>
    obtain ⟨stop', inner, hstop⟩ := ih
    exact ⟨stop', .inParen (by rwa [hkind]) inner, hstop⟩
  | unclosed hreads inner charged closed hk =>
    exact ⟨_, .unclosed ((h.reads_iff _ _).2 hreads) inner charged (by rwa [hkind]) (by rwa [hkind]),
      h.unexpectedAt_moved _ _⟩
  | @signedInteger room p n v hreads hv =>
    exact ⟨_, .signedInteger ((h.reads_iff _ _).2 hreads) hv,
      mark_spanTo_moved _ (h.offset_locationAt _) (h.offset_locationAt _) (h.length_locationAt _)⟩
  | signTooDeep hk hi => exact ⟨_, .signTooDeep (by rwa [hkind]) (by rwa [hkind]), h.stopAt_moved _ _⟩
  | behindSign hk hi _ ih =>
    obtain ⟨stop', inner, hstop⟩ := ih
    exact ⟨stop', .behindSign (by rwa [hkind]) (by rwa [hkind]) inner, hstop⟩
  | negation hreads hi operand =>
    exact ⟨_, .negation ((h.reads_iff _ _).2 hreads) (by rwa [hkind]) operand, h.negationOverflow_moved _ _⟩
  | chargeSign hreads hi operand notNumber charged full =>
    exact ⟨_, .chargeSign ((h.reads_iff _ _).2 hreads) (by rwa [hkind]) operand notNumber charged full,
      h.stopAt_moved _ _⟩
  | first above _ ih =>
    obtain ⟨stop', inner, hstop⟩ := ih
    exact ⟨stop', .first above inner, hstop⟩
  | second above hreads derived operator charged _ ih =>
    obtain ⟨stop', inner, hstop⟩ := ih
    exact ⟨stop', .second above ((h.reads_iff _ _).2 hreads) derived operator charged inner, hstop⟩
  | chargeOperator above hreads derived operator operand closed charged full =>
    exact ⟨_, .chargeOperator above ((h.reads_iff _ _).2 hreads) derived operator operand (by rwa [hkind]) charged
      full, h.stopAt_moved _ _⟩

end Moved

/-- What a call gives, as far as it can be told apart outside. -/
def told (call : Except Stop Expr × Progress) : Except SyntaxError Expr := call.1.mapError Stop.toSyntaxError

/-- A call over the moved row gives the same tree, or the same error moved. -/
theorem told_parse_moved {k : Nat} {tokens tokens' : Array Token} (h : Moved k tokens tokens') {s : Progress}
    (hs : s.depth = 0) : told (parse tokens' s) = (told (parse tokens s)).mapError (SyntaxError.moved k) := by
  have hkind := h.kindAt_eq
  -- a call accepts, ends before its row does, or stops; each is found again in the moved row
  generalize hcall : parse tokens s = call
  have hends : CallEnds tokens s call := hcall ▸ callEnds tokens hs
  cases hends with
  | accepted derived reads hend charged =>
    have hparse := (parse_fst_eq_ok_iff hs).2 ⟨_, derived, (h.reads_iff _ _).2 reads, by rwa [hkind], charged⟩
    rw [told, hparse]
    rfl
  | @unfinished ks e derived reads closed hk charged =>
    have hrun : (runAt tokens' .sum maxDepth).run s = .ok e (s.after ks e) :=
      accepts derived s (by omega) ((h.reads_iff _ _).2 reads) (by rwa [hkind]) charged
    have hk' : kindAt tokens' (s.after ks e).position ≠ .blockEnd := by rwa [hkind]
    rw [told, parse_eq, run_expression, hrun]
    simp only [if_neg hk']
    exact congrArg Except.error (h.unexpectedAt_moved _ _)
  | failed fails =>
    obtain ⟨stop', fails', hstop⟩ := h.fails fails
    rw [told, parse_of_fails hs fails']
    exact congrArg Except.error hstop

end Expr.Parser

/-- **The same characters somewhere else** are parsed as the same tree, or refused for the same cause, which then
marks the bytes as much further on. -/
theorem Expr.parseAt_moved {c c' : Cursor} {k : Nat} (hrest : c'.rest = c.rest)
    (hoffset : c'.location.offset = c.location.offset + k) :
    parseAt c' = (parseAt c).mapError (SyntaxError.moved k) := by
  have hmarks := Cursor.marks_tokens_moved hrest hoffset
  cases htokens : c.tokens with
  | error e =>
    rw [htokens] at hmarks
    cases htokens' : c'.tokens with
    | error e' =>
      rw [htokens'] at hmarks
      obtain rfl : e' = e.moved k := Except.error.inj hmarks
      rw [parseAt, parseAt, htokens, htokens']
      rfl
    | ok ts' =>
      rw [htokens'] at hmarks
      cases hmarks
  | ok ts =>
    rw [htokens] at hmarks
    cases htokens' : c'.tokens with
    | error e' =>
      rw [htokens'] at hmarks
      cases hmarks
    | ok ts' =>
      rw [htokens'] at hmarks
      have hne : ts ≠ [] := by
        obtain ⟨ks, -, body, last, rfl, -⟩ := Cursor.lexes_of_tokens c ts htokens
        simp
      have hmoved := Parser.moved_of_marks hne (Except.ok.inj hmarks)
      rw [parseAt, parseAt, htokens, htokens']
      exact Parser.told_parse_moved hmoved rfl

end PropertyExpr
