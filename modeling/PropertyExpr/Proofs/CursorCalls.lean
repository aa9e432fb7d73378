import Mathlib
import PropertyExpr.Proofs.Places
/-!
# Calls on a cursor

`readsOn_ofRangeAt` — whatever the calls before came to, a call leaves the cursor at a boundary inside its range,
behind where it was or there, and with the line and column of that place. A token and most faults take characters. The
end of the block and a character that starts no token take blanks only, and the same answer comes again from then on;
so reading token by token comes to an end.

What a call does is that it passes characters (`Cursor.Passes`); if it takes none but blanks, the cursor stands where a
call finds it unchanged (`next_next_of_not_takes`).
-/
namespace PropertyExpr

/-- The answer is made of characters: it is a token, or a fault inside of one. -/
def TakesCharacters : Except SyntaxError Token → Prop
  | .ok t => t.kind ≠ .blockEnd
  | .error e => ∀ ch, e.cause ≠ .unexpectedCharacter ch

namespace Cursor

variable {c d : Cursor} {passed : List Char}

/-! ## One call -/

/-- From `c` the characters `passed` lead to `d`. -/
def Passes (c : Cursor) (passed : List Char) (d : Cursor) : Prop :=
  c.rest = passed ++ d.rest ∧ d = c.pass passed d.rest

theorem Passes.refl (c : Cursor) : c.Passes [] c := ⟨rfl, rfl⟩

theorem Passes.trans {e : Cursor} {passed' : List Char} (h : c.Passes passed d) (h' : d.Passes passed' e) :
    c.Passes (passed ++ passed') e := by
  obtain ⟨hrest, hd⟩ := h
  obtain ⟨hrest', he⟩ := h'
  refine ⟨by rw [hrest, hrest', List.append_assoc], ?_⟩
  rw [he, hd]
  simp only [pass, List.foldl_append]

theorem passes_skipBlanks (c : Cursor) : c.Passes (c.rest.takeWhile Text.isBlank) c.skipBlanks :=
  ⟨List.takeWhile_append_dropWhile.symm, rfl⟩

/-- A lexeme has characters unless its first one is unexpected. -/
theorem takesCharacters_locate_iff (start : Location) (ch : Char) (cs : List Char) :
    TakesCharacters (locate start (Lexeme.read ch cs)) ↔ (Lexeme.read ch cs).text ≠ [] := by
  cases hread : (Lexeme.read ch cs).outcome with
  | ok kind =>
    have hkind := Lexeme.ne_blockEnd_of_read hread
    have htext := Lexeme.text_ne_nil hread
    simp [locate, hread, TakesCharacters, hkind, htext]
  | error fault =>
    have hlocate : TakesCharacters (locate start (Lexeme.read ch cs)) ↔ ∀ a, fault.cause ≠ .unexpectedCharacter a := by
      simp [locate, hread, TakesCharacters]
    rw [hlocate]
    unfold Lexeme.read at hread ⊢
    split at hread
    · cases hread
    rename_i hstart
    rw [if_neg hstart]
    split at hread
    · rename_i hdigit
      simp only [Lexeme.integer] at hread
      split at hread
      · cases hread
      · cases hread
        simp [Lexeme.integer, hdigit]
    rename_i hdigit
    rw [if_neg hdigit]
    split at hread
    · rename_i hquote
      simp only [Lexeme.string] at hread
      split at hread
      · cases hread
      · cases hread
        simp [Lexeme.string, hquote]
      · cases hread
        simp [Lexeme.string, hquote]
    rename_i hquote
    rw [if_neg hquote]
    split at hread
    · cases hread
    · cases hread
      simp

/-- What is left behind a token or a fault is behind at least one character. -/
theorem passes_next_of_takes (h : TakesCharacters c.next.1) : ∃ passed, passed ≠ [] ∧ c.Passes passed c.next.2 := by
  cases hfront : c.rest.dropWhile Text.isBlank with
  | nil =>
    rw [next_of_blank hfront] at h
    exact absurd rfl h
  | cons ch cs =>
    rw [next_of_front hfront] at h ⊢
    have htext := (takesCharacters_locate_iff _ ch cs).1 h
    have hlexeme : c.skipBlanks.Passes (Lexeme.read ch cs).text
        (c.skipBlanks.pass (Lexeme.read ch cs).text (Lexeme.read ch cs).rest) :=
      ⟨hfront.trans (Lexeme.text_append_rest ch cs).symm, rfl⟩
    exact ⟨_, by simp [htext], c.passes_skipBlanks.trans hlexeme⟩

/-- At the end of the block, and at a character that starts no token, blanks are skipped and nothing else. -/
theorem next_of_not_takes (h : ¬ TakesCharacters c.next.1) : c.next.2 = c.skipBlanks := by
  cases hfront : c.rest.dropWhile Text.isBlank with
  | nil => rw [next_of_blank hfront]
  | cons ch cs =>
    rw [next_of_front hfront] at h ⊢
    have htext : (Lexeme.read ch cs).text = [] := by
      rw [takesCharacters_locate_iff] at h
      exact not_not.1 h
    have hrest : (Lexeme.read ch cs).rest = c.skipBlanks.rest := by
      have happend := Lexeme.text_append_rest ch cs
      rw [htext, List.nil_append] at happend
      exact happend.trans hfront.symm
    simp only [htext, hrest]
    rfl

theorem next_skipBlanks (c : Cursor) : c.skipBlanks.next = c.next := by
  have hskip : c.skipBlanks.skipBlanks = c.skipBlanks := by
    have hdrop := List.dropWhile_idempotent (l := c.rest) (p := Text.isBlank)
    have htake : (c.rest.dropWhile Text.isBlank).takeWhile Text.isBlank = [] := by
      rw [List.takeWhile_eq_nil_iff]
      exact List.dropWhile_get_zero_not _ _
    change c.skipBlanks.pass ((c.rest.dropWhile Text.isBlank).takeWhile Text.isBlank)
      ((c.rest.dropWhile Text.isBlank).dropWhile Text.isBlank) = _
    rw [htake, hdrop]
    rfl
  simp only [next, hskip]

/-- Where nothing was taken, the next call finds and gives the same. -/
theorem next_next_of_not_takes (h : ¬ TakesCharacters c.next.1) : c.next.2.next = c.next := by
  rw [next_of_not_takes h, next_skipBlanks]

/-- One call passes some characters. -/
theorem exists_passes_next (c : Cursor) : ∃ passed, c.Passes passed c.next.2 := by
  by_cases h : TakesCharacters c.next.1
  · obtain ⟨passed, -, hpasses⟩ := passes_next_of_takes h
    exact ⟨passed, hpasses⟩
  · exact ⟨_, next_of_not_takes h ▸ c.passes_skipBlanks⟩

/-- The end of the block is found exactly if nothing but blanks is left. -/
theorem next_eq_blockEnd_iff (c : Cursor) :
    (∃ t, c.next.1 = .ok t ∧ t.kind = .blockEnd) ↔ ∀ a ∈ c.rest, Text.isBlank a := by
  rw [← List.dropWhile_eq_nil_iff]
  constructor
  · rintro ⟨t, ht, hkind⟩
    cases hfront : c.rest.dropWhile Text.isBlank with
    | nil => rfl
    | cons ch cs =>
      rw [next_of_front hfront, locate] at ht
      split at ht
      · rename_i hread
        cases ht
        exact absurd hkind (Lexeme.ne_blockEnd_of_read hread)
      · cases ht
  · intro hblank
    rw [next_of_blank hblank]
    exact ⟨_, rfl, rfl⟩

/-! ## Calls one after the other -/

theorem goOn_add (calls more : Nat) (c : Cursor) : c.goOn (calls + more) = (c.goOn calls).goOn more := by
  induction calls generalizing c with
  | zero => rw [Nat.zero_add, goOn]
  | succ calls ih => rw [Nat.succ_add, goOn, goOn, ih]

theorem exists_passes_goOn (calls : Nat) (c : Cursor) : ∃ passed, c.Passes passed (c.goOn calls) := by
  induction calls generalizing c with
  | zero => exact ⟨[], .refl c⟩
  | succ calls ih =>
    obtain ⟨passed, hnext⟩ := c.exists_passes_next
    obtain ⟨passed', hmore⟩ := ih c.next.2
    exact ⟨passed ++ passed', hnext.trans hmore⟩

/-- An answer that takes no characters is given for ever. -/
theorem next_goOn_of_not_takes (h : ¬ TakesCharacters c.next.1) (more : Nat) : (c.goOn more).next = c.next := by
  induction more generalizing c with
  | zero => rfl
  | succ more ih =>
    have hagain := next_next_of_not_takes h
    rw [goOn, ih (by rwa [hagain]), hagain]

/-- Calls give tokens up to the end of the block or the first fault; there are no more of them than characters, and they
are the tokens of the block. -/
theorem exists_calls_tokens (c : Cursor) : ∃ ts : List Token, ts.length ≤ c.rest.length ∧
    (∀ i t, ts[i]? = some t → (c.goOn i).next.1 = .ok t ∧ t.kind ≠ .blockEnd) ∧
    ((∃ t, (c.goOn ts.length).next.1 = .ok t ∧ t.kind = .blockEnd ∧ c.tokens = .ok (ts ++ [t])) ∨
      ∃ e, (c.goOn ts.length).next.1 = .error e ∧ c.tokens = .error e) := by
  cases hnext : c.next with
  | mk answer d =>
    have hanswer : c.next.1 = answer := congrArg Prod.fst hnext
    cases answer with
    | error e => exact ⟨[], Nat.zero_le _, by simp, .inr ⟨e, hanswer, tokens_of_error hnext⟩⟩
    | ok t =>
      by_cases hk : t.kind = .blockEnd
      · exact ⟨[], Nat.zero_le _, by simp, .inl ⟨t, hanswer, hk, tokens_of_blockEnd hnext hk⟩⟩
      · have hlt := rest_next_lt hnext hk
        have hgoOn (i : Nat) : c.goOn (i + 1) = d.goOn i := by rw [goOn, hnext]
        obtain ⟨ts, hlength, hts, hlast⟩ := exists_calls_tokens d
        refine ⟨t :: ts, Nat.le_trans (Nat.succ_le_succ hlength) hlt, ?_, ?_⟩
        · rintro (_ | i) u hu
          · obtain rfl := Option.some.inj hu
            exact ⟨hanswer, hk⟩
          · rw [hgoOn]
            exact hts i u hu
        · rw [List.length_cons, hgoOn, tokens_of_token hnext hk]
          rcases hlast with ⟨u, hu, hend, htokens⟩ | ⟨e, he, htokens⟩
          · exact .inl ⟨u, hu, hend, by rw [htokens]; rfl⟩
          · exact .inr ⟨e, he, by rw [htokens]⟩
termination_by c.rest.length

/-! ## In a range -/

/-- The cursor stands in the source at the byte that it says, and what is left goes on to byte `stop`. -/
def LeftIn (source : List Char) (stop : Nat) (c : Cursor) : Prop :=
  ∃ before behind, source = before ++ (c.rest ++ behind) ∧ c.location.offset = Text.byteLength before ∧
    Text.byteLength before + Text.byteLength c.rest = stop

section
variable {source : List Char} {start stop : Nat}

theorem leftIn_ofRangeAt (ordered : start ≤ stop) (hstart : Text.isBoundary source start)
    (hstop : Text.isBoundary source stop) (place : Location) : LeftIn source stop (ofRangeAt source start stop place) := by
  obtain ⟨before, inside, behind, rfl, rfl, rfl⟩ := Text.exists_range ordered hstart hstop
  have hrest : (ofRangeAt (before ++ (inside ++ behind)) (Text.byteLength before)
      (Text.byteLength before + Text.byteLength inside) place).rest = inside := Text.slice_append before inside behind
  rw [LeftIn, hrest]
  exact ⟨before, behind, rfl, rfl, rfl⟩

theorem Passes.offset (h : c.Passes passed d) : d.location.offset = c.location.offset + Text.byteLength passed := by
  rw [h.2]
  exact offset_pass c passed d.rest

theorem LeftIn.passes (h : LeftIn source stop c) (hpasses : c.Passes passed d) : LeftIn source stop d := by
  obtain ⟨before, behind, hsource, hoffset, hstop⟩ := h
  have hrest := hpasses.1
  refine ⟨before ++ passed, behind, ?_, ?_, ?_⟩
  · rw [hsource, hrest, List.append_assoc, List.append_assoc]
  · rw [hpasses.offset, hoffset, Text.byteLength_append]
  · rw [← hstop, hrest, Text.byteLength_append, Text.byteLength_append, Nat.add_assoc]

/-- The characters that are passed are those between the two places. -/
theorem LeftIn.slice_passed (h : LeftIn source stop c) (hpasses : c.Passes passed d) :
    Text.slice source c.location.offset d.location.offset = passed := by
  obtain ⟨before, behind, hsource, hoffset, -⟩ := h
  have hrest := hpasses.1
  rw [hpasses.offset, hoffset, hsource, hrest, List.append_assoc]
  exact Text.slice_append before passed (d.rest ++ behind)

theorem LeftIn.isBoundary (h : LeftIn source stop c) : Text.isBoundary source c.location.offset := by
  obtain ⟨before, behind, rfl, hoffset, -⟩ := h
  rw [hoffset]
  exact Text.isBoundary_append before _

theorem LeftIn.rest_eq (h : LeftIn source stop c) : c.rest = Text.slice source c.location.offset stop := by
  obtain ⟨before, behind, hsource, hoffset, hstop⟩ := h
  have hslice := Text.slice_append before c.rest behind
  rw [hstop, ← hsource, ← hoffset] at hslice
  exact hslice.symm

theorem LeftIn.offset_le (h : LeftIn source stop c) : c.location.offset ≤ stop := by
  obtain ⟨before, behind, -, hoffset, hstop⟩ := h
  omega

/-- The place behind what is passed is found by advancing to it in the source. -/
theorem LeftIn.advanced (h : LeftIn source stop c) (hlength : c.location.length = 0) (hpasses : c.Passes passed d) :
    d.location = c.location.advanceTo source d.location.offset := by
  have hplace : d.location = c.location.after passed := by
    rw [hpasses.2]
    exact Location.foldl_step c.location passed hlength
  rw [Location.advanceTo, h.slice_passed hpasses, ← hplace]

end

/-- What calls do on the cursor `c` over the bytes `start` to `stop` of a source. -/
structure ReadsOn (source : List Char) (start stop : Nat) (c : Cursor) : Prop where
  /-- The cursor stays inside the range at a boundary between characters, with the rest of the range left. -/
  inside : ∀ calls, start ≤ (c.goOn calls).location.offset ∧ (c.goOn calls).location.offset ≤ stop ∧
    Text.isBoundary source (c.goOn calls).location.offset ∧
    (c.goOn calls).rest = Text.slice source (c.goOn calls).location.offset stop
  /-- It never moves back. -/
  ordered : ∀ calls more, (c.goOn calls).location.offset ≤ (c.goOn (calls + more)).location.offset
  /-- Its line and column are those of the start, advanced to where it is. -/
  advanced : ∀ calls, (c.goOn calls).location = c.location.advanceTo source (c.goOn calls).location.offset
  /-- A token, and any fault but an unexpected character, takes at least one character. -/
  taken : ∀ calls, TakesCharacters (c.goOn calls).next.1 →
    (c.goOn calls).location.offset < (c.goOn (calls + 1)).location.offset
  /-- Before an unexpected character nothing but blanks is taken, and the same error comes again for ever. -/
  unexpected : ∀ calls e ch, (c.goOn calls).next.1 = .error e → e.cause = .unexpectedCharacter ch →
    (∀ a ∈ Text.slice source (c.goOn calls).location.offset (c.goOn (calls + 1)).location.offset, Text.isBlank a) ∧
    ∀ more, (c.goOn (calls + more)).next.1 = .error e
  /-- The block ends exactly where only blanks are left of the range. -/
  ended_iff : ∀ calls, (∃ t, (c.goOn calls).next.1 = .ok t ∧ t.kind = .blockEnd) ↔
    ∀ a ∈ Text.slice source (c.goOn calls).location.offset stop, Text.isBlank a
  /-- The same end token comes again for ever. -/
  ended : ∀ calls t, (c.goOn calls).next.1 = .ok t → t.kind = .blockEnd →
    ∀ more, (c.goOn (calls + more)).next.1 = .ok t
  /-- No more calls give other tokens than there are characters; the next one ends reading them all. -/
  tokens : ∃ ts : List Token, ts.length ≤ (Text.slice source start stop).length ∧
    (∀ i t, ts[i]? = some t → (c.goOn i).next.1 = .ok t ∧ t.kind ≠ .blockEnd) ∧
    ((∃ t, (c.goOn ts.length).next.1 = .ok t ∧ t.kind = .blockEnd ∧ c.tokens = .ok (ts ++ [t])) ∨
      ∃ e, (c.goOn ts.length).next.1 = .error e ∧ c.tokens = .error e)

/-- **Any number of calls on one cursor**, whatever faults they meet: it stays in its range, never moves back, knows its
place, and takes characters until it stands where all calls to come give the same answer. -/
theorem readsOn_ofRangeAt {source : List Char} {start stop : Nat} (ordered : start ≤ stop)
    (hstart : Text.isBoundary source start) (hstop : Text.isBoundary source stop) (place : Location) :
    ReadsOn source start stop (ofRangeAt source start stop place) := by
  have hleft := leftIn_ofRangeAt ordered hstart hstop place
  generalize hc : ofRangeAt source start stop place = c at hleft
  have hoffset : c.location.offset = start := by rw [← hc, ofRangeAt]
  have hlength : c.location.length = 0 := by rw [← hc, ofRangeAt]
  have hrest : c.rest = Text.slice source start stop := by rw [← hc, ofRangeAt]
  have hgoOn (calls : Nat) : LeftIn source stop (c.goOn calls) := by
    obtain ⟨passed, hpasses⟩ := exists_passes_goOn calls c
    exact hleft.passes hpasses
  have hstep (calls : Nat) : c.goOn (calls + 1) = (c.goOn calls).next.2 := goOn_add calls 1 c
  have hagain (calls : Nat) (h : ¬ TakesCharacters (c.goOn calls).next.1) (more : Nat) :
      (c.goOn (calls + more)).next.1 = (c.goOn calls).next.1 := by
    rw [goOn_add, next_goOn_of_not_takes h]
  refine ⟨?_, ?_, ?_, ?_, ?_, ?_, ?_, ?_⟩
  · intro calls
    obtain ⟨passed, hpasses⟩ := exists_passes_goOn calls c
    have hle := hpasses.offset
    exact ⟨by omega, (hgoOn calls).offset_le, (hgoOn calls).isBoundary, (hgoOn calls).rest_eq⟩
  · intro calls more
    obtain ⟨passed, hpasses⟩ := exists_passes_goOn more (c.goOn calls)
    rw [goOn_add, hpasses.offset]
    exact Nat.le_add_right _ _
  · intro calls
    obtain ⟨passed, hpasses⟩ := exists_passes_goOn calls c
    exact hleft.advanced hlength hpasses
  · intro calls h
    obtain ⟨passed, hne, hpasses⟩ := passes_next_of_takes h
    have hpos : Text.byteLength passed ≠ 0 := fun hzero => hne (Text.byteLength_eq_zero hzero)
    rw [hstep, hpasses.offset]
    omega
  · intro calls e ch he hcause
    have hstays : ¬ TakesCharacters (c.goOn calls).next.1 := by
      rw [he]
      exact fun h => h ch hcause
    constructor
    · have hblanks := (hgoOn calls).slice_passed (next_of_not_takes hstays ▸ (c.goOn calls).passes_skipBlanks)
      rw [hstep, hblanks]
      exact fun a ha => List.mem_takeWhile_imp ha
    · intro more
      rw [hagain calls hstays, he]
  · intro calls
    rw [← (hgoOn calls).rest_eq]
    exact next_eq_blockEnd_iff _
  · intro calls t ht hkind more
    have hstays : ¬ TakesCharacters (c.goOn calls).next.1 := by
      rw [ht]
      exact fun h => h hkind
    rw [hagain calls hstays, ht]
  · rw [← hrest]
    exact exists_calls_tokens c

/-- Over a literal with a wrong escape, an integer, and a character that starts no token. -/
def wrongEscape : Cursor := ofRangeAt "é\x7b\x7b \"\\é12\n %\x7d\x7d".toList 4 14 ⟨7, 5, 0, 0⟩

theorem readsOn_wrongEscape :
    (4 ≤ 14 ∧ Text.isBoundary "é\x7b\x7b \"\\é12\n %\x7d\x7d".toList 4 ∧
      Text.isBoundary "é\x7b\x7b \"\\é12\n %\x7d\x7d".toList 14) ∧
    wrongEscape.next.1 = .error ⟨.invalidEscape "\\é", 6, 3⟩ ∧
    (wrongEscape.goOn 1).next.1 = .ok ⟨.integer 12, ⟨7, 9, 9, 2⟩⟩ ∧
    ∀ more, (wrongEscape.goOn (2 + more)).next.1 = .error ⟨.unexpectedCharacter '%', 13, 1⟩ := by
  have hreads : ReadsOn "é\x7b\x7b \"\\é12\n %\x7d\x7d".toList 4 14 wrongEscape :=
    readsOn_ofRangeAt (by decide) (by decide) (by decide) ⟨7, 5, 0, 0⟩
  have hunexpected : (wrongEscape.goOn 2).next.1 = .error ⟨.unexpectedCharacter '%', 13, 1⟩ := by cbv
  refine ⟨by decide, by cbv, by cbv, ?_⟩
  exact (hreads.unexpected 2 _ '%' hunexpected rfl).2

end Cursor

end PropertyExpr
