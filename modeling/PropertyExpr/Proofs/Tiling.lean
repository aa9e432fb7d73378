import Mathlib
import PropertyExpr.Proofs.Relocation
import PropertyExpr.Proofs.Spelling
/-!
# How tokens lie in a text

`tiling_of_tokens` — the tokens of a range of bytes lie in it one behind the other, with nothing but blanks before,
between and behind them, each as long as it can be, and each is the same token when it is read alone. Reading one
token takes blanks and the text of the token off the range (`Tiles`), and what is known of the tokens behind it
holds of all of them (`Tiling.cons`).
-/
namespace PropertyExpr

/-- The byte behind a token. -/
def Token.stop (t : Token) : Nat := t.location.offset + t.location.length

/-- The text of a token. -/
def Token.text (source : List Char) (t : Token) : List Char := Text.slice source t.location.offset t.stop

/-- The texts before each token: from byte `start` to the first, and from each token to the next. -/
def gaps (source : List Char) : Nat → List Token → List (List Char)
  | _, [] => []
  | start, t :: ts => Text.slice source start t.location.offset :: gaps source t.stop ts

/-- Tokens that fill the bytes `start` to `stop` of `source`, apart from blanks. -/
structure Tiling (source : List Char) (start stop : Nat) (ts : List Token) : Prop where
  /-- In order, and disjoint. -/
  ordered : ts.Pairwise fun t t' => t.stop ≤ t'.location.offset
  inside : ∀ t ∈ ts, start ≤ t.location.offset ∧ t.stop ≤ stop
  nonempty : ∀ t ∈ ts.dropLast, 1 ≤ t.location.length
  /-- The last token is the only one that ends the block; it is empty and lies at the end of the range. -/
  blockEnd : ∃ t, ts.getLast? = some t ∧ t.kind = .blockEnd ∧ t.location.offset = stop ∧ t.location.length = 0
  onlyEnd : ∀ t ∈ ts.dropLast, t.kind ≠ .blockEnd
  blank : ∀ gap ∈ gaps source start ts, ∀ c ∈ gap, Text.isBlank c
  /-- Gaps and tokens make up the range. -/
  covers : (List.zipWith (· ++ ·) (gaps source start ts) (ts.map (Token.text source))).flatten =
    Text.slice source start stop
  /-- A token alone is the same token. -/
  alone : ∀ t ∈ ts.dropLast,
    (Cursor.ofText (t.text source)).tokens.map (List.map Token.kind) = .ok [t.kind, .blockEnd]
  /-- Within the range no token could be longer. -/
  maximal : ∀ t ∈ ts, t.kind.EndsBefore (Text.slice source t.stop stop)
  value : ∀ t ∈ ts, ∀ n, t.kind = .integer n →
    (∀ c ∈ t.text source, c.isDigit) ∧ digitsValue (t.text source) = n.toNat

/-! ## Taking tokens off a text -/

/-- The characters `cs` from byte `offset` on are blanks and the tokens `ts`, up to the end of the block. -/
inductive Tiles : Nat → List Char → List Token → Prop
  | done {offset : Nat} {cs : List Char} {t : Token} (blank : ∀ c ∈ cs, Text.isBlank c) (kind : t.kind = .blockEnd)
      (start : t.location.offset = offset + Text.byteLength cs) (length : t.location.length = 0) : Tiles offset cs [t]
  | token {offset : Nat} {gap text rest : List Char} {t : Token} {ts : List Token}
      (blank : ∀ c ∈ gap, Text.isBlank c) (spelled : Spelled text t.kind) (ends : t.kind.EndsBefore rest)
      (start : t.location.offset = offset + Text.byteLength gap) (length : t.location.length = Text.byteLength text)
      (behind : Tiles t.stop rest ts) : Tiles offset (gap ++ (text ++ rest)) (t :: ts)

theorem tiles_of_lexes {cs : List Char} {ks : List Token.Kind} (h : Lexes cs ks) {c : Cursor} (hc : c.rest = cs)
    {ts : List Token} (hts : c.tokens = .ok ts) : Tiles c.location.offset cs ts := by
  induction h generalizing c ts with
  | @done cs blank =>
    have hall : cs.takeWhile Text.isBlank = cs := by
      simpa [blank] using List.takeWhile_append_dropWhile (p := Text.isBlank) (l := cs)
    rw [Cursor.tokens_of_blockEnd (Cursor.next_of_blank (by rwa [hc])) rfl] at hts
    obtain rfl := Except.ok.inj hts
    refine .done (fun a ha => ?_) rfl ?_ rfl
    · rw [← hall] at ha
      exact List.all_eq_true.1 List.all_takeWhile a ha
    · show c.skipBlanks.location.offset = _
      rw [Cursor.offset_skipBlanks, hc, hall]
  | @token cs cs' ch kind ks front read _ ih =>
    subst hc
    have hnext := Cursor.next_of_front front
    rw [Cursor.locate, read] at hnext
    rw [Cursor.tokens_of_token hnext (Lexeme.ne_blockEnd_of_read read)] at hts
    cases hbehind : (c.skipBlanks.pass (Lexeme.read ch cs').text (Lexeme.read ch cs').rest).tokens with
    | error e =>
      rw [hbehind] at hts
      cases hts
    | ok ts' =>
      rw [hbehind] at hts
      obtain rfl := Except.ok.inj hts
      obtain ⟨hspelled, hends⟩ := Lexeme.spelled_of_read read
      have htiles := ih rfl hbehind
      rw [Cursor.offset_pass] at htiles
      have hsplit : c.rest = c.rest.takeWhile Text.isBlank ++
          ((Lexeme.read ch cs').text ++ (Lexeme.read ch cs').rest) := by
        rw [Lexeme.text_append_rest, ← front, List.takeWhile_append_dropWhile]
      rw [hsplit]
      exact .token (List.all_eq_true.1 List.all_takeWhile) hspelled hends c.offset_skipBlanks rfl htiles

/-! ## What is spelled -/

section
variable {text : List Char} {kind : Token.Kind}

theorem ne_blockEnd_of_spelled (h : Spelled text kind) : kind ≠ .blockEnd := by
  cases h with
  | punctuation single => exact Lexeme.punctuation?_ne_blockEnd single
  | _ => simp

theorem byteLength_pos_of_spelled (h : Spelled text kind) : 1 ≤ Text.byteLength text := by
  have hpos {c : Char} {cs : List Char} (htext : text = c :: cs) : 1 ≤ Text.byteLength text := by
    rw [htext, Text.byteLength_cons]
    exact Nat.le_trans c.utf8Size_pos (Nat.le_add_right _ _)
  cases h with
  | ident valid =>
    obtain ⟨c, cs, hcs, -⟩ := exists_cons_of_isIdentifier valid
    exact hpos hcs
  | integer nonempty =>
    obtain ⟨c, cs, hcs⟩ := List.exists_cons_of_ne_nil nonempty
    exact hpos hcs
  | string | punctuation => exact hpos rfl

/-- An integer is the value of its digits. -/
theorem digits_of_spelled {n : UInt64} (h : Spelled text (.integer n)) :
    (∀ c ∈ text, c.isDigit) ∧ digitsValue text = n.toNat := by
  generalize hkind : Token.Kind.integer n = kind at h
  cases h with
  | integer nonempty decimal inRange =>
    obtain rfl := Token.Kind.integer.inj hkind
    exact ⟨decimal, (UInt64.toNat_ofNat_of_lt' inRange).symm⟩
  | @punctuation c _ single =>
    subst hkind
    unfold Lexeme.punctuation? at single
    split at single <;> cases single
  | _ => cases hkind

/-- A token alone is read as itself. -/
theorem tokens_of_spelled (h : Spelled text kind) :
    (Cursor.ofText text).tokens.map (List.map Token.kind) = .ok [kind, .blockEnd] := by
  obtain ⟨ts, htokens, hrow⟩ := Cursor.tokens_of_lexes (lexes_spelled_alone h) (.ofText text) rfl
  rw [htokens, Except.map, hrow.map_kind]
  rfl

end

/-! ## What lies in the range -/

section
variable {source before behind gap text rest : List Char} {t : Token} {ts : List Token}

theorem Text.slice_self (cs : List Char) (n : Nat) : Text.slice cs n n = [] := by
  rw [Text.slice, Nat.sub_self, Text.takeBytes]

/-- Only blanks are left. -/
theorem Tiling.done (hsource : source = before ++ (gap ++ behind)) (hblank : ∀ c ∈ gap, Text.isBlank c)
    (hkind : t.kind = .blockEnd) (hstart : t.location.offset = Text.byteLength before + Text.byteLength gap)
    (hlength : t.location.length = 0) :
    Tiling source (Text.byteLength before) (Text.byteLength before + Text.byteLength gap) [t] := by
  have hgap : Text.slice source (Text.byteLength before) (Text.byteLength before + Text.byteLength gap) = gap := by
    rw [hsource, Text.slice_append]
  have hstop : t.stop = Text.byteLength before + Text.byteLength gap := by
    rw [Token.stop, hlength, hstart, Nat.add_zero]
  have htext : t.text source = [] := by rw [Token.text, hstart, hstop, Text.slice_self]
  constructor
  case ordered => exact List.pairwise_singleton _ _
  case inside => simp [hstart, hstop]
  case nonempty => simp
  case blockEnd => exact ⟨t, rfl, hkind, hstart, hlength⟩
  case onlyEnd => simp
  case blank => simpa [gaps, hstart, hgap] using hblank
  case covers => simp [gaps, hstart, hgap, htext]
  case alone => simp
  case maximal => simpa [hstop, Text.slice_self] using t.kind.endsBefore_nil
  case value => simp [hkind]

/-- Blanks and a token stand before a range that is tiled. -/
theorem Tiling.cons (hsource : source = before ++ (gap ++ (text ++ rest) ++ behind))
    (hblank : ∀ c ∈ gap, Text.isBlank c) (hspelled : Spelled text t.kind) (hends : t.kind.EndsBefore rest)
    (hstart : t.location.offset = Text.byteLength before + Text.byteLength gap)
    (hlength : t.location.length = Text.byteLength text)
    (h : Tiling source t.stop (Text.byteLength before + Text.byteLength (gap ++ (text ++ rest))) ts) :
    Tiling source (Text.byteLength before) (Text.byteLength before + Text.byteLength (gap ++ (text ++ rest)))
      (t :: ts) := by
  have hstop : t.stop = Text.byteLength before + Text.byteLength gap + Text.byteLength text := by
    rw [Token.stop, hlength, hstart]
  have hinside : Text.slice source (Text.byteLength before)
      (Text.byteLength before + Text.byteLength (gap ++ (text ++ rest))) = gap ++ (text ++ rest) := by
    rw [hsource, Text.slice_append]
  have hgap : Text.slice source (Text.byteLength before) t.location.offset = gap := by
    rw [hsource, hstart, List.append_assoc, Text.slice_append]
  have htext : t.text source = text := by
    have := Text.slice_append (before ++ gap) text (rest ++ behind)
    simpa [Token.text, hstart, hstop, hsource] using this
  have hrest : Text.slice source t.stop (Text.byteLength before + Text.byteLength (gap ++ (text ++ rest))) = rest := by
    have := Text.slice_append (before ++ gap ++ text) rest behind
    simpa [hstop, hsource, Nat.add_assoc] using this
  have hlast : (t :: ts).dropLast = t :: ts.dropLast := by
    obtain ⟨last, hlast, -⟩ := h.blockEnd
    exact List.dropLast_cons_of_ne_nil (by rintro rfl; cases hlast)
  rw [Text.byteLength_append, Text.byteLength_append] at h hinside hrest ⊢
  constructor
  case ordered => exact List.pairwise_cons.2 ⟨fun t' ht' => (h.inside t' ht').1, h.ordered⟩
  case inside =>
    refine List.forall_mem_cons.2 ⟨by omega, fun t' ht' => ?_⟩
    have := h.inside t' ht'
    omega
  case nonempty =>
    rw [hlast]
    refine List.forall_mem_cons.2 ⟨?_, h.nonempty⟩
    rw [hlength]
    exact byteLength_pos_of_spelled hspelled
  case blockEnd =>
    obtain ⟨last, hlast, hend⟩ := h.blockEnd
    exact ⟨last, by rw [List.getLast?_cons, hlast, Option.getD_some], hend⟩
  case onlyEnd =>
    rw [hlast]
    exact List.forall_mem_cons.2 ⟨ne_blockEnd_of_spelled hspelled, h.onlyEnd⟩
  case blank =>
    rw [gaps, hgap]
    exact List.forall_mem_cons.2 ⟨hblank, h.blank⟩
  case covers =>
    rw [gaps, hgap, List.map_cons, List.zipWith_cons_cons, List.flatten_cons, h.covers, htext, hinside, hrest,
      List.append_assoc]
  case alone =>
    rw [hlast]
    refine List.forall_mem_cons.2 ⟨?_, h.alone⟩
    rw [htext]
    exact tokens_of_spelled hspelled
  case maximal =>
    refine List.forall_mem_cons.2 ⟨?_, h.maximal⟩
    rwa [hrest]
  case value =>
    refine List.forall_mem_cons.2 ⟨fun n hn => ?_, h.value⟩
    rw [htext]
    exact digits_of_spelled (hn ▸ hspelled)

theorem tiling_of_tiles {offset : Nat} {cs : List Char} (h : Tiles offset cs ts) (hoffset : offset = Text.byteLength before)
    (hsource : source = before ++ (cs ++ behind)) :
    Tiling source (Text.byteLength before) (Text.byteLength before + Text.byteLength cs) ts := by
  induction h generalizing before with
  | done blank kind start length => exact .done hsource blank kind (hoffset ▸ start) length
  | @token offset gap text rest t ts blank spelled ends start length _ ih =>
    subst hoffset
    have hstop : t.stop = Text.byteLength (before ++ gap ++ text) := by
      rw [Token.stop, start, length, Text.byteLength_append, Text.byteLength_append]
    have htail := ih hstop (by simpa using hsource)
    refine .cons hsource blank spelled ends start length ?_
    rw [hstop]
    simpa [Nat.add_assoc] using htail

end

/-! ## Runs of digits -/

theorem Cursor.next_fst_of_digits {c : Cursor} {gap digits rest : List Char} (hc : c.rest = gap ++ (digits ++ rest))
    (hblank : ∀ a ∈ gap, Text.isBlank a) (hne : digits ≠ []) (hdigits : ∀ a ∈ digits, a.isDigit)
    (hrest : ∀ a, rest.head? = some a → a.isDigit = false) :
    (c.next.1.map Token.kind).mapError SyntaxError.cause =
      if digitsValue digits < UInt64.size then .ok (.integer (UInt64.ofNat (digitsValue digits)))
      else .error (.integerOverflow (String.ofList digits)) := by
  obtain ⟨htake, hdrop⟩ := span_digits hdigits hrest
  obtain ⟨a, digits, rfl⟩ := List.exists_cons_of_ne_nil hne
  have ha : a.isDigit := hdigits a List.mem_cons_self
  have hplain : ¬ Text.isBlank a := by
    rw [isBlank_of_isIdentifierPart (isIdentifierPart_of_isDigit ha)]
    exact Bool.false_ne_true
  have hfront : c.rest.dropWhile Text.isBlank = a :: (digits ++ rest) := by
    rw [hc, List.dropWhile_append_of_pos hblank, List.cons_append, List.dropWhile_cons_of_neg hplain]
  rw [next_of_front hfront, locate, Lexeme.read, if_neg (by simp [isIdentifierStart_of_isDigit ha]), if_pos ha,
    Lexeme.integer, ← List.cons_append, htake]
  by_cases hsize : digitsValue (a :: digits) < UInt64.size
  · simp only [if_pos hsize]
    rfl
  · simp only [if_neg hsize]
    rfl

/-- The tokens of a range are tokens alone, as long as they can be, and have nothing but blanks around them. A run of
digits is an integer unless its value takes more than 64 bits, whatever zeros it has in front. -/
theorem tiling_of_tokens (before inside behind : List Char) :
    (∀ ts, (Cursor.ofRange (before ++ (inside ++ behind)) (Text.byteLength before)
        (Text.byteLength before + Text.byteLength inside)).tokens = .ok ts →
      Tiling (before ++ (inside ++ behind)) (Text.byteLength before)
        (Text.byteLength before + Text.byteLength inside) ts) ∧
    ∀ (gap digits rest : List Char) (zeros : Nat) (start : Location), (∀ a ∈ gap, Text.isBlank a) → digits ≠ [] →
      (∀ a ∈ digits, a.isDigit) → (∀ a, rest.head? = some a → a.isDigit = false) →
      ((Cursor.mk (gap ++ (List.replicate zeros '0' ++ digits ++ rest)) start).next.1.map Token.kind).mapError
          SyntaxError.cause =
        if digitsValue digits < 2 ^ 64 then .ok (.integer (UInt64.ofNat (digitsValue digits)))
        else .error (.integerOverflow (String.ofList (List.replicate zeros '0' ++ digits))) := by
  constructor
  · intro ts hts
    have hrest : (Cursor.ofRange (before ++ (inside ++ behind)) (Text.byteLength before)
        (Text.byteLength before + Text.byteLength inside)).rest = inside := Text.slice_append before inside behind
    obtain ⟨ks, hlexes, -⟩ := Cursor.lexes_of_tokens _ ts hts
    have htiles := tiles_of_lexes hlexes rfl hts
    rw [hrest] at htiles
    exact tiling_of_tiles htiles rfl rfl
  · intro gap digits rest zeros start hblank hne hdigits hrest
    have hnext := Cursor.next_fst_of_digits (c := ⟨gap ++ (List.replicate zeros '0' ++ digits ++ rest), start⟩) rfl
      hblank (by simp [hne]) (isDigit_of_mem_replicate_append hdigits) hrest
    rwa [digitsValue_replicate_append] at hnext

/-- Tokens behind a character of two bytes, and a run of digits that is too large. -/
theorem tiling_of_tokens_sum :
    (Cursor.ofRange "é\x7b\x7b n+007 \x7d\x7d".toList 4 11).tokens = .ok
      [⟨.ident "n", ⟨1, 5, 5, 1⟩⟩, ⟨.plus, ⟨1, 6, 6, 1⟩⟩, ⟨.integer 7, ⟨1, 7, 7, 3⟩⟩, ⟨.blockEnd, ⟨1, 11, 11, 0⟩⟩] ∧
    Tiling "é\x7b\x7b n+007 \x7d\x7d".toList 4 11
      [⟨.ident "n", ⟨1, 5, 5, 1⟩⟩, ⟨.plus, ⟨1, 6, 6, 1⟩⟩, ⟨.integer 7, ⟨1, 7, 7, 3⟩⟩, ⟨.blockEnd, ⟨1, 11, 11, 0⟩⟩] ∧
    ((Cursor.ofText "0018446744073709551616)".toList).next.1.map Token.kind).mapError SyntaxError.cause =
      .error (.integerOverflow "0018446744073709551616") := by
  have htokens : (Cursor.ofRange "é\x7b\x7b n+007 \x7d\x7d".toList 4 11).tokens = .ok
      [⟨.ident "n", ⟨1, 5, 5, 1⟩⟩, ⟨.plus, ⟨1, 6, 6, 1⟩⟩, ⟨.integer 7, ⟨1, 7, 7, 3⟩⟩, ⟨.blockEnd, ⟨1, 11, 11, 0⟩⟩] := by
    cbv
  obtain ⟨htiling, hrun⟩ := tiling_of_tokens "é\x7b\x7b".toList " n+007 ".toList "\x7d\x7d".toList
  refine ⟨htokens, htiling _ htokens, ?_⟩
  exact hrun [] "18446744073709551616".toList [')'] 2 .origin (by simp) (by decide) (by simp) (by simp)

end PropertyExpr
