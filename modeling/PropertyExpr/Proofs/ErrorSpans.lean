import PropertyExpr.Proofs.Composition
import PropertyExpr.Proofs.ParserOverrun
import PropertyExpr.Proofs.Ranges
import PropertyExpr.Proofs.Tiling
/-!
# What errors mark

`errors_inside` — an error of a range marks bytes of the range, from one boundary between characters to another, and
so what a warning says is wrong lies between the braces of its own block.

A fault of a lexeme lies in its characters. What the parser marks starts where a token starts and ends where one ends
(`Fails.marksTokens`), and tokens start and end at boundaries of the text they are read from (`Tiles.boundaries`).
-/
namespace PropertyExpr

namespace Text

/-- Byte `n` is a boundary of `cs`, which starts at byte `start`. -/
def BoundaryFrom (start : Nat) (cs : List Char) (n : Nat) : Prop :=
  ∃ pre post, cs = pre ++ post ∧ n = start + byteLength pre

variable {start n : Nat} {cs : List Char}

theorem boundaryFrom_append (start : Nat) (pre post : List Char) :
    BoundaryFrom start (pre ++ post) (start + byteLength pre) := ⟨pre, post, rfl, rfl⟩

/-- What is a boundary behind a text is one of both together. -/
theorem BoundaryFrom.append (pre : List Char) (h : BoundaryFrom (start + byteLength pre) cs n) :
    BoundaryFrom start (pre ++ cs) n := by
  obtain ⟨pre', post, rfl, rfl⟩ := h
  refine ⟨pre ++ pre', post, (List.append_assoc pre pre' post).symm, ?_⟩
  rw [byteLength_append, Nat.add_assoc]

theorem BoundaryFrom.le (h : BoundaryFrom start cs n) : start ≤ n ∧ n ≤ start + byteLength cs := by
  obtain ⟨pre, post, rfl, rfl⟩ := h
  rw [byteLength_append]
  omega

/-- A boundary of a range is one of the whole text. -/
theorem BoundaryFrom.isBoundary (before behind : List Char) (h : BoundaryFrom (byteLength before) cs n) :
    Text.isBoundary (before ++ (cs ++ behind)) n := by
  obtain ⟨pre, post, rfl, rfl⟩ := h
  have hboundary := isBoundary_append (before ++ pre) (post ++ behind)
  rwa [byteLength_append, List.append_assoc, ← List.append_assoc pre] at hboundary

end Text

open Text (BoundaryFrom)

/-- The bytes that an error marks start and end at boundaries of `cs`, which starts at byte `start`. -/
def SyntaxError.MarksIn (start : Nat) (cs : List Char) (e : SyntaxError) : Prop :=
  BoundaryFrom start cs e.span.1 ∧ BoundaryFrom start cs e.span.2

/-! ## Lexemes -/

namespace Lexeme

/-- The bytes that a fault marks start and end at boundaries of `cs`. -/
def Fault.MarksIn (cs : List Char) (fault : Fault) : Prop :=
  BoundaryFrom 0 cs fault.skipped ∧ BoundaryFrom 0 cs (fault.skipped + fault.length)

variable {c : Char} {cs : List Char} {fault : Fault}

/-- Characters in a row are marked. -/
theorem Fault.marksIn_of_eq {cause : SyntaxError.Cause} {skipped length : Nat} (pre marked post : List Char)
    (hcs : cs = pre ++ (marked ++ post)) (hskipped : skipped = Text.byteLength pre)
    (hlength : length = Text.byteLength marked) : Fault.MarksIn cs ⟨cause, skipped, length⟩ := by
  subst hcs hskipped hlength
  refine ⟨⟨pre, marked ++ post, rfl, (Nat.zero_add _).symm⟩, pre ++ marked, post, ?_, ?_⟩
  · rw [List.append_assoc]
  · rw [Text.byteLength_append, Nat.zero_add]

/-- A wrong escape is the last that is read. -/
theorem exists_text_of_badEscape (h : (stringBody cs).ending = .badEscape c) :
    ∃ pre, (stringBody cs).text = pre ++ ['\\', c] := by
  fun_induction stringBody cs with
  | case1 | case2 | case3 => cases h
  | case4 d cs hd ih =>
    obtain ⟨pre, hpre⟩ := ih h
    exact ⟨'\\' :: d :: pre, by simp [StringBody.prepend, hpre]⟩
  | case5 d cs hd =>
    cases h
    exact ⟨[], rfl⟩
  | case6 d cs _ _ _ ih =>
    obtain ⟨pre, hpre⟩ := ih h
    exact ⟨d :: pre, by simp [StringBody.prepend, hpre]⟩

theorem marksIn_of_string (h : (string cs).outcome = .error fault) : fault.MarksIn ('"' :: cs) := by
  have htext := congrArg ('"' :: ·) (stringBody_text_append cs)
  cases hending : (stringBody cs).ending with
  | closed =>
    simp only [string, hending] at h
    cases h
  | unterminated =>
    simp only [string, hending] at h
    cases h
    exact Fault.marksIn_of_eq [] _ _ htext.symm rfl rfl
  | badEscape d =>
    simp only [string, hending] at h
    cases h
    obtain ⟨pre, hpre⟩ := exists_text_of_badEscape hending
    have hlength : 1 + d.utf8Size = Text.byteLength ['\\', d] := rfl
    have hcs : '"' :: cs = ('"' :: pre) ++ (['\\', d] ++ (stringBody cs).rest) := by
      rw [← htext, hpre, List.append_assoc]
      rfl
    refine Fault.marksIn_of_eq _ _ _ hcs ?_ hlength
    rw [hpre, hlength, ← List.cons_append, Text.byteLength_append, Nat.add_sub_cancel]

/-- **A fault lies in the text** it is found in. -/
theorem marksIn_of_read (h : (read c cs).outcome = .error fault) : fault.MarksIn (c :: cs) := by
  unfold read at h
  split at h
  · cases h
  split at h
  · simp only [integer] at h
    split at h
    · cases h
    · cases h
      exact Fault.marksIn_of_eq [] _ _ List.takeWhile_append_dropWhile.symm rfl rfl
  split at h
  · rename_i hquote
    rw [hquote]
    exact marksIn_of_string h
  split at h
  · cases h
  · cases h
    exact Fault.marksIn_of_eq [] [c] cs rfl rfl rfl

end Lexeme

/-! ## Tokens -/

/-- Boundaries of what is left behind a text that has been passed are boundaries of both. -/
theorem SyntaxError.MarksIn.append {start : Nat} {cs : List Char} {e : SyntaxError} (pre : List Char)
    (h : e.MarksIn (start + Text.byteLength pre) cs) : e.MarksIn start (pre ++ cs) :=
  ⟨h.1.append pre, h.2.append pre⟩

/-- An error met while tokens are read marks bytes of what is left. -/
theorem Cursor.marksIn_of_tokens {c : Cursor} {e : SyntaxError} (h : c.tokens = .error e) :
    e.MarksIn c.location.offset c.rest := by
  cases hfront : c.rest.dropWhile Text.isBlank with
  | nil => cases (tokens_of_blockEnd (next_of_blank hfront) rfl).symm.trans h
  | cons ch cs =>
    have hnext := next_of_front hfront
    have hblanks : c.rest = c.rest.takeWhile Text.isBlank ++ (ch :: cs) := by
      rw [← hfront, List.takeWhile_append_dropWhile]
    rw [hblanks]
    refine SyntaxError.MarksIn.append _ ?_
    rw [← c.offset_skipBlanks]
    cases hread : (Lexeme.read ch cs).outcome with
    | error fault =>
      rw [locate, hread] at hnext
      obtain rfl := Except.error.inj ((tokens_of_error hnext).symm.trans h)
      obtain ⟨⟨pre, post, hcs, hpre⟩, pre', post', hcs', hpre'⟩ := Lexeme.marksIn_of_read hread
      refine ⟨⟨pre, post, hcs, ?_⟩, pre', post', hcs', ?_⟩
      · simp only [SyntaxError.span]
        omega
      · simp only [SyntaxError.span]
        omega
    | ok kind =>
      rw [locate, hread] at hnext
      have hk := Lexeme.ne_blockEnd_of_read hread
      have hlt := rest_next_lt hnext hk
      rw [tokens_of_token hnext hk] at h
      cases hbehind : (c.skipBlanks.pass (Lexeme.read ch cs).text (Lexeme.read ch cs).rest).tokens with
      | ok ts =>
        rw [hbehind] at h
        cases h
      | error e' =>
        rw [hbehind] at h
        obtain rfl := Except.error.inj h
        have hmarks := marksIn_of_tokens hbehind
        rw [offset_pass] at hmarks
        rw [← Lexeme.text_append_rest ch cs]
        exact hmarks.append _
termination_by c.rest.length

/-- A token starts and ends at boundaries of the text it is read from. -/
theorem Tiles.boundaries {start : Nat} {cs : List Char} {ts : List Token} (h : Tiles start cs ts) :
    ∀ t ∈ ts, BoundaryFrom start cs t.location.offset ∧ BoundaryFrom start cs t.stop := by
  induction h with
  | @done start cs t _ _ hstart hlength =>
    have hend := Text.boundaryFrom_append start cs []
    rw [List.append_nil, ← hstart] at hend
    refine List.forall_mem_singleton.2 ⟨hend, ?_⟩
    rwa [Token.stop, hlength]
  | @token start gap text rest t ts _ _ _ hstart hlength _ ih =>
    have hstop : t.stop = start + Text.byteLength gap + Text.byteLength text := by
      rw [Token.stop, hstart, hlength]
    refine List.forall_mem_cons.2 ⟨⟨?_, ?_⟩, ?_⟩
    · rw [hstart]
      exact Text.boundaryFrom_append start gap (text ++ rest)
    · rw [hstop]
      exact (Text.boundaryFrom_append _ text rest).append gap
    · intro u hu
      rw [hstop] at ih
      exact ⟨((ih u hu).1.append text).append gap, ((ih u hu).2.append text).append gap⟩

/-! ## Stops -/

namespace Expr.Parser

variable {tokens : Array Token} {tier : Tier} {room p n q m : Nat} {stop : Stop}

/-- The stop marks the bytes from the start of one token of the row to the end of another, unless it overruns it. -/
def Stop.MarksTokens (tokens : Array Token) : Stop → Prop
  | .refused error => ∃ i j cause, error = .mark cause ((locationAt tokens i).spanTo (locationAt tokens j))
  | .overrun .. => True

/-- A single token is marked. -/
theorem stopAt_marksTokens (cause : SyntaxError.Cause) (i : Nat) : (stopAt tokens cause i).MarksTokens tokens := by
  refine ⟨i, i, cause, ?_⟩
  simp only [SyntaxError.mark, Location.spanTo, Nat.add_sub_cancel_left]

theorem TailFails.marksTokens (h : TailFails tokens p stop q) : stop.MarksTokens tokens := by
  cases h <;> exact stopAt_marksTokens _ _

theorem negationOverflow_marksTokens (position stop : Nat) :
    (negationOverflow tokens position stop).MarksTokens tokens := by
  unfold negationOverflow
  cases hlast : previousAt tokens stop with
  | none => trivial
  | some last =>
    obtain ⟨j, rfl⟩ : ∃ j, last = locationAt tokens j := by
      unfold previousAt at hlast
      split at hlast
      · exact ⟨stop, (Option.some.inj hlast).symm⟩
      · obtain ⟨t, ht, rfl⟩ := Option.map_eq_some_iff.1 hlast
        exact ⟨stop - 1, by rw [locationAt, tokenAt, ht]; rfl⟩
    exact ⟨position, j, _, rfl⟩

/-- **A run that stops marks tokens** of its row. -/
theorem Fails.marksTokens (h : Fails tokens tier room p n stop q m) : stop.MarksTokens tokens := by
  induction h with
  | other | integer | parenTooDeep | unclosed | signTooDeep | chargeSign | chargeOperator =>
    exact stopAt_marksTokens _ _
  | tail _ ht => exact ht.marksTokens
  | signedInteger => exact ⟨_, _, _, rfl⟩
  | negation => exact negationOverflow_marksTokens _ _
  | inParen _ _ ih | behindSign _ _ _ ih | first _ _ ih | second _ _ _ _ _ _ ih => exact ih

/-- A call that does not accept a row with an end token refuses it, and marks tokens. -/
theorem exists_refused_of_parse {t : Token} (ht : t ∈ tokens) (hk : t.kind = .blockEnd)
    (h : (parse tokens .start).1 = .error stop) : ∃ error, stop = .refused error ∧ stop.MarksTokens tokens := by
  have hends := callEnds tokens (s := .start) rfl
  generalize parse tokens .start = call at h hends
  cases hends with
  | accepted => cases h
  | unfinished =>
    cases h
    exact ⟨_, rfl, stopAt_marksTokens _ _⟩
  | @failed stop q m fails =>
    cases h
    cases stop with
    | refused error => exact ⟨error, rfl, fails.marksTokens⟩
    | overrun cause start => exact absurd fails.overruns (not_overruns_of_blockEnd ht hk 0)

/-- The current token is one of the row, also behind it. -/
theorem tokenAt_mem {t : Token} (ht : t ∈ tokens) (position : Nat) : tokenAt tokens position ∈ tokens := by
  obtain ⟨last, hlast⟩ : ∃ last, tokens.back? = some last := by
    cases hback : tokens.back? with
    | some last => exact ⟨last, rfl⟩
    | none =>
      rw [Array.back?_eq_none_iff.1 hback] at ht
      exact absurd ht (Array.not_mem_empty t)
  rw [tokenAt, hlast, Option.getD_some]
  cases hp : tokens[position]? with
  | none => exact Array.mem_of_back? hlast
  | some t' => exact Array.mem_of_getElem? hp

/-- What marks tokens marks bytes of the text that they are read from. -/
theorem marksIn_of_marksTokens {start : Nat} {cs : List Char} {error : SyntaxError} {t : Token} (ht : t ∈ tokens)
    (hplaces : ∀ t ∈ tokens, BoundaryFrom start cs t.location.offset ∧ BoundaryFrom start cs t.stop)
    (h : (Stop.refused error).MarksTokens tokens) : error.MarksIn start cs := by
  obtain ⟨i, j, cause, rfl⟩ := h
  have hfirst := (hplaces _ (tokenAt_mem ht i)).1
  have hlast := (hplaces _ (tokenAt_mem ht j)).2
  refine ⟨hfirst, ?_⟩
  -- nothing is marked if the second token ends before the first starts
  rcases Nat.le_total (tokenAt tokens i).location.offset (tokenAt tokens j).stop with hle | hle
  · have hspan : (SyntaxError.mark cause ((locationAt tokens i).spanTo (locationAt tokens j))).span.2 =
        (tokenAt tokens j).stop := Nat.add_sub_of_le hle
    rwa [hspan]
  · have hspan : (SyntaxError.mark cause ((locationAt tokens i).spanTo (locationAt tokens j))).span.2 =
        (tokenAt tokens i).location.offset := by
      have hempty : (tokenAt tokens j).stop - (tokenAt tokens i).location.offset = 0 := Nat.sub_eq_zero_of_le hle
      exact congrArg ((tokenAt tokens i).location.offset + ·) hempty
    rwa [hspan]

end Expr.Parser

/-! ## Ranges and blocks -/

/-- Where an error comes from: a character that no token starts with, or that breaks one, or a token that the parser
refuses. No run of the parser goes past the last token. -/
def Cursor.Refuses (c : Cursor) (error : SyntaxError) : Prop :=
  c.tokens = .error error ∨
    ∃ tokens, c.tokens = .ok tokens ∧ (Expr.Parser.parse tokens.toArray .start).1 = .error (.refused error)

theorem Expr.refuses_of_parseAt {c : Cursor} {error : SyntaxError} (h : parseAt c = .error error) :
    c.Refuses error ∧ error.MarksIn c.location.offset c.rest := by
  cases htokens : c.tokens with
  | error e =>
    rw [parseAt, htokens] at h
    obtain rfl := Except.error.inj h
    exact ⟨.inl htokens, Cursor.marksIn_of_tokens htokens⟩
  | ok ts =>
    rw [parseAt, htokens] at h
    dsimp only at h
    obtain ⟨ks, hlexes, body, last, rfl, -, -, hlast⟩ := Cursor.lexes_of_tokens c ts htokens
    have hmem : last ∈ (body ++ [last]).toArray := by simp
    have hplaces := (tiles_of_lexes hlexes rfl htokens).boundaries
    cases hparse : (Parser.parse (body ++ [last]).toArray .start).1 with
    | ok e =>
      rw [hparse] at h
      cases h
    | error stop =>
      rw [hparse] at h
      obtain ⟨e, rfl, hmarks⟩ := Parser.exists_refused_of_parse hmem hlast hparse
      obtain rfl : e = error := Except.error.inj h
      refine ⟨.inr ⟨_, htokens, hparse⟩, Parser.marksIn_of_marksTokens hmem ?_ hmarks⟩
      intro t ht
      exact hplaces t (List.mem_toArray.1 ht)

/-- A syntax error that marks a stretch of the bytes `start` to `stop` of `source`, cut between characters. -/
structure SyntaxError.MarksInside (source : List Char) (start stop : Nat) (e : SyntaxError) : Prop where
  syntactic : (Error.syntactic e).isSyntactic
  lower : start ≤ e.span.1
  ordered : e.span.1 ≤ e.span.2
  upper : e.span.2 ≤ stop
  first : Text.isBoundary source e.span.1
  last : Text.isBoundary source e.span.2

theorem SyntaxError.marksInside_append {before inside : List Char} (behind : List Char) {e : SyntaxError}
    (h : e.MarksIn (Text.byteLength before) inside) :
    e.MarksInside (before ++ (inside ++ behind)) (Text.byteLength before)
      (Text.byteLength before + Text.byteLength inside) where
  syntactic := rfl
  lower := h.1.le.1
  ordered := Nat.le_add_right _ _
  upper := h.2.le.2
  first := h.1.isBoundary before behind
  last := h.2.isBoundary before behind

/-- An error of a range marks bytes of the range. -/
theorem Expr.marksInside_of_parseRange {source : List Char} {start stop : Nat} {error : SyntaxError}
    (ordered : start ≤ stop) (hstart : Text.isBoundary source start) (hstop : Text.isBoundary source stop)
    (h : parseRange source start stop = .error error) :
    error.MarksInside source start stop ∧ (Cursor.ofRange source start stop).Refuses error := by
  obtain ⟨before, inside, behind, rfl, rfl, rfl⟩ := Text.exists_range ordered hstart hstop
  obtain ⟨hrefuses, hmarks⟩ := refuses_of_parseAt h
  rw [Cursor.ofRange_append] at hmarks
  refine ⟨?_, hrefuses⟩
  have hoffset : (Location.origin.after before).offset = Text.byteLength before := Nat.zero_add _
  exact SyntaxError.marksInside_append behind (hoffset ▸ hmarks)

/-- What a warning says is wrong lies between the braces of its block, and the block where the warning says. -/
structure Warning.MarksInside (source : List Char) (w : Warning) : Prop where
  /-- The block lies in the template. -/
  block : ∃ before behind, source = before ++ (w.block.toList ++ behind) ∧
    Text.byteLength before = w.location.offset
  /-- The cause marks bytes of it. -/
  cause : ∃ inner, w.block.toList = Piece.openBraces ++ inner ++ Piece.closeBraces ∧
    w.cause.MarksInside source (w.location.offset + 2) (w.location.offset + 2 + Text.byteLength inner)

theorem Template.marksInside_of_mem_warnings {source : String} {w : Warning}
    (hw : w ∈ (parseWithWarnings source).2) : w.MarksInside source.toList := by
  obtain ⟨before, inner, behind, hsource, htree, hblock, hlocation⟩ := exists_block_of_mem_warnings hw
  have hcut : source.toList = (before ++ Piece.openBraces) ++ (inner ++ (Piece.closeBraces ++ behind)) := by
    simp only [hsource, Piece.source, List.append_assoc]
  have hopen : w.location.offset + 2 = Text.byteLength (before ++ Piece.openBraces) := by
    rw [hlocation, Text.byteLength_append]
    rfl
  have hoffset : ((Location.origin.after before).after Piece.openBraces).offset =
      Text.byteLength (before ++ Piece.openBraces) := by
    rw [← Location.after_append]
    exact Nat.zero_add _
  rw [hsource, blockTree_append] at htree
  have hmarks := (Expr.refuses_of_parseAt htree).2
  rw [hoffset] at hmarks
  refine ⟨⟨before, behind, ?_, ?_⟩, inner, hblock, ?_⟩
  · rw [hblock, ← hsource]
  · rw [hlocation]
    rfl
  · rw [hcut, hopen]
    exact SyntaxError.marksInside_append (Piece.closeBraces ++ behind) hmarks

/-- **What an error marks lies in what was parsed**, and starts and ends between characters: in the range, if a range is
parsed, and between the braces of its block, if a block is warned of. The error is a syntax error, met while tokens are
read or refused by the parser. -/
theorem errors_inside (source : String) :
    (∀ start stop error, start ≤ stop → Text.isBoundary source.toList start → Text.isBoundary source.toList stop →
      Expr.parseRange source.toList start stop = .error error →
      error.MarksInside source.toList start stop ∧ (Cursor.ofRange source.toList start stop).Refuses error) ∧
    ∀ w ∈ (Template.parseWithWarnings source).2, w.MarksInside source.toList :=
  ⟨fun _ _ _ => Expr.marksInside_of_parseRange, fun _ => Template.marksInside_of_mem_warnings⟩

/-- A wrong escape of three bytes, behind a character of two. -/
theorem errors_inside_wrongEscape :
    Expr.parseRange "é\x7b\x7b1 + \"\\ñ\" \x7d\x7d".toList 4 14 = .error ⟨.invalidEscape "\\ñ", 9, 3⟩ ∧
    SyntaxError.MarksInside "é\x7b\x7b1 + \"\\ñ\" \x7d\x7d".toList 4 14 ⟨.invalidEscape "\\ñ", 9, 3⟩ ∧
    ∃ w ∈ (Template.parseWithWarnings "é\x7b\x7b1 + \"\\ñ\" \x7d\x7d").2,
      w.MarksInside "é\x7b\x7b1 + \"\\ñ\" \x7d\x7d".toList := by
  have herror : Expr.parseRange "é\x7b\x7b1 + \"\\ñ\" \x7d\x7d".toList 4 14 =
      .error ⟨.invalidEscape "\\ñ", 9, 3⟩ := by
    cbv
  have hwarning : (Template.parseWithWarnings "é\x7b\x7b1 + \"\\ñ\" \x7d\x7d").2 =
      [⟨"\x7b\x7b1 + \"\\ñ\" \x7d\x7d", ⟨1, 2, 2, 0⟩, ⟨.invalidEscape "\\ñ", 9, 3⟩⟩] := by
    cbv
  obtain ⟨hrange, hblock⟩ := errors_inside "é\x7b\x7b1 + \"\\ñ\" \x7d\x7d"
  refine ⟨herror, (hrange 4 14 _ (by decide) (by decide) (by decide) herror).1, ?_⟩
  rw [hwarning] at hblock ⊢
  exact ⟨_, List.mem_singleton_self _, hblock _ (List.mem_singleton_self _)⟩

end PropertyExpr
