import PropertyExpr.Proofs.Composition
import PropertyExpr.Proofs.Ranges
/-!
# Lines and columns

A place is found from the start of the source, from a place before it, or character by character while tokens are
read. `Location.advanceTo_atOffset` says that it does not matter from where one goes on, and
`Cursor.isPlaced_of_calls` that a token has the line and column of its first byte, however many tokens and faults
have been read before. What reading keeps is that the cursor stands where a front of the source ends, at the place
behind that front (`Cursor.StandsIn`).
-/
namespace PropertyExpr

namespace Location

/-! ## From place to place -/

/-- The line and column of a place are those of its first byte, which starts a character or ends the source. -/
def IsPlaced (source : List Char) (loc : Location) : Prop :=
  Text.isBoundary source loc.offset ∧ loc = atOffset source loc.offset loc.length

/-- The place behind a front of the source, with any length. -/
theorem isPlaced_after (before behind : List Char) (length : Nat) :
    IsPlaced (before ++ behind) { origin.after before with length } := by
  have hoffset : (origin.after before).offset = Text.byteLength before := Nat.zero_add _
  refine ⟨?_, ?_⟩
  · show Text.isBoundary _ (origin.after before).offset
    rw [hoffset]
    exact Text.isBoundary_append before behind
  · show _ = { atOffset (before ++ behind) (origin.after before).offset 0 with length }
    rw [hoffset, atOffset_append]

/-- Going on from the place of `start` leads to the place of `stop`. -/
theorem advanceTo_atOffset {source : List Char} {start stop : Nat} (ordered : start ≤ stop)
    (hstart : Text.isBoundary source start) (hstop : Text.isBoundary source stop) (length : Nat) :
    (atOffset source start length).advanceTo source stop = atOffset source stop 0 := by
  obtain ⟨before, inside, behind, rfl, rfl, rfl⟩ := Text.exists_range ordered hstart hstop
  have hfrom : atOffset (before ++ (inside ++ behind)) (Text.byteLength before) length =
      { origin.after before with length } := by
    rw [← atOffset_append before (inside ++ behind)]
    rfl
  have hto := atOffset_append (before ++ inside) behind
  rw [List.append_assoc, Text.byteLength_append, after_append] at hto
  have hoffset : ((origin.after before).after inside).offset = Text.byteLength before + Text.byteLength inside := by
    simp [after, origin]
  have hbefore : (origin.after before).offset = Text.byteLength before := Nat.zero_add _
  rw [hfrom, hto, advanceTo]
  simp only [hbefore]
  rw [Text.slice_append, ← hoffset]
  rfl

end Location

/-! ## While tokens are read -/

namespace Cursor

/-- The cursor after `calls` tokens or faults have been read. -/
def goOn : (calls : Nat) → Cursor → Cursor
  | 0, c => c
  | calls + 1, c => goOn calls c.next.2

/-- The cursor stands where a front of the source ends, and knows the place. -/
def StandsIn (source : List Char) (c : Cursor) : Prop :=
  ∃ before behind, source = before ++ (c.rest ++ behind) ∧ c.location = Location.origin.after before

variable {source : List Char} {c : Cursor}

theorem StandsIn.pass (h : StandsIn source c) {text rest : List Char} (hrest : c.rest = text ++ rest) :
    StandsIn source (c.pass text rest) := by
  obtain ⟨before, behind, hsource, hplace⟩ := h
  refine ⟨before ++ text, behind, ?_, ?_⟩
  · rw [hsource, hrest, List.append_assoc, List.append_assoc]
    rfl
  · show text.foldl Location.step c.location = _
    rw [Location.foldl_step _ _ (by rw [hplace]; rfl), hplace, Location.after_append]

theorem StandsIn.skipBlanks (h : StandsIn source c) : StandsIn source c.skipBlanks :=
  h.pass List.takeWhile_append_dropWhile.symm

/-- What is made of the place of a cursor is placed in the source. -/
theorem StandsIn.isPlaced (h : StandsIn source c) (length : Nat) :
    Location.IsPlaced source { c.location with length } := by
  obtain ⟨before, behind, rfl, hplace⟩ := h
  rw [hplace]
  exact Location.isPlaced_after before _ length

/-- Reading one token keeps the cursor in the source, also if a fault is met. -/
theorem StandsIn.next (h : StandsIn source c) : StandsIn source c.next.2 := by
  cases hfront : c.rest.dropWhile Text.isBlank with
  | nil =>
    rw [next_of_blank hfront]
    exact h.skipBlanks
  | cons ch cs =>
    rw [next_of_front hfront]
    refine h.skipBlanks.pass ?_
    rw [Lexeme.text_append_rest]
    exact hfront

/-- A token that is read from a cursor in the source is placed there. -/
theorem StandsIn.isPlaced_of_next (h : StandsIn source c) {t : Token} (ht : c.next.1 = .ok t) :
    Location.IsPlaced source t.location := by
  cases hfront : c.rest.dropWhile Text.isBlank with
  | nil =>
    rw [next_of_blank hfront] at ht
    obtain rfl := Except.ok.inj ht
    exact h.skipBlanks.isPlaced 0
  | cons ch cs =>
    rw [next_of_front hfront] at ht
    cases hread : (Lexeme.read ch cs).outcome with
    | error fault =>
      rw [locate, hread] at ht
      cases ht
    | ok kind =>
      rw [locate, hread] at ht
      obtain rfl := Except.ok.inj ht
      exact h.skipBlanks.isPlaced _

theorem StandsIn.goOn (h : StandsIn source c) (calls : Nat) : StandsIn source (c.goOn calls) := by
  induction calls generalizing c with
  | zero => exact h
  | succ calls ih => exact ih h.next

/-- A cursor over a range starts in the source. -/
theorem standsIn_ofRangeAt {start stop : Nat} (ordered : start ≤ stop) (hstart : Text.isBoundary source start)
    (hstop : Text.isBoundary source stop) :
    StandsIn source (ofRangeAt source start stop (Location.atOffset source start 0)) := by
  obtain ⟨before, inside, behind, rfl, rfl, rfl⟩ := Text.exists_range ordered hstart hstop
  rw [ofRangeAt_atOffset, ofRange_append]
  exact ⟨before, behind, rfl, rfl⟩

/-- **Any token read from a range**, by any number of calls, has the line and column of its first byte. -/
theorem isPlaced_of_calls {start stop : Nat} (ordered : start ≤ stop) (hstart : Text.isBoundary source start)
    (hstop : Text.isBoundary source stop) (calls : Nat) {t : Token}
    (ht : ((ofRangeAt source start stop (Location.atOffset source start 0)).goOn calls).next.1 = .ok t) :
    Location.IsPlaced source t.location :=
  ((standsIn_ofRangeAt ordered hstart hstop).goOn calls).isPlaced_of_next ht

/-- The tokens up to the end of a block are those that calls one after the other give. -/
theorem exists_calls_of_mem_tokens {c : Cursor} {ts : List Token} (h : c.tokens = .ok ts) {t : Token} (ht : t ∈ ts) :
    ∃ calls, (c.goOn calls).next.1 = .ok t := by
  cases hnext : c.next with
  | mk read d =>
    cases read with
    | error e => cases (tokens_of_error hnext).symm.trans h
    | ok first =>
      by_cases hk : first.kind = .blockEnd
      · obtain rfl := Except.ok.inj ((tokens_of_blockEnd hnext hk).symm.trans h)
        obtain rfl := List.mem_singleton.1 ht
        exact ⟨0, congrArg Prod.fst hnext⟩
      · have hlt := rest_next_lt hnext hk
        rw [tokens_of_token hnext hk] at h
        cases hbehind : d.tokens with
        | error e =>
          rw [hbehind] at h
          cases h
        | ok rest =>
          rw [hbehind] at h
          obtain rfl := Except.ok.inj h
          rcases List.mem_cons.1 ht with rfl | ht
          · exact ⟨0, congrArg Prod.fst hnext⟩
          · obtain ⟨calls, hcalls⟩ := exists_calls_of_mem_tokens hbehind ht
            refine ⟨calls + 1, ?_⟩
            rwa [Cursor.goOn, hnext]
termination_by c.rest.length

end Cursor

end PropertyExpr
