import PropertyExpr.Proofs.Places
/-!
# Composing a template in one pass: `template::Composer`

A composer passes the pieces of a source once and keeps the segments that are finished, the text that is not, the
warnings, and a cursor that is moved on from block to block only. `compose_eq_parseWithWarnings` says that it makes
the same template and the same warnings as looking at each piece by itself, and `places_agree` that the three ways in
which lines and columns are found give the same ones.

What a push keeps is that the cursor is the place of a byte that is not behind the pieces passed (`Composer.Follows`);
so going on from it leads to the place of the next block, and the piece is added as the part that it is.
-/
namespace PropertyExpr.Template

open PropertyExpr.Template.Part (segmentsAfter)
open PropertyExpr.Template.Part.segmentsAfter (textSegment)

/-- What has been made of the pieces passed. -/
structure Composer where
  segments : List Segment
  /-- The text that has not ended. -/
  text : List Char
  warnings : List Warning
  /-- The start of the inside of the last block, or of the source. -/
  cursor : Location

namespace Composer

/-- A composer that has passed nothing (`Composer::new`). -/
def start : Composer := ⟨[], [], [], Location.origin⟩

def pushText (c : Composer) (content : List Char) : Composer := { c with text := c.text ++ content }

/-- An expression ends the text before it (`Composer::push_code`). -/
def pushCode (c : Composer) (e : Expr) : Composer :=
  { c with segments := c.segments ++ (textSegment c.text ++ [.code e]), text := [] }

/-- A block that is no expression is text, and is warned of (`Composer::push_fallback`). -/
def pushKept (c : Composer) (warning : Warning) : Composer :=
  { c with text := c.text ++ warning.block.toList, warnings := c.warnings ++ [warning] }

/-- Passes one piece (`Composer::push`). The cursor is moved on to the block and then into it. -/
def push (source : List Char) (c : Composer) (p : Piece) : Composer :=
  match p with
  | .text .. => c.pushText (blockText source p)
  | .block start _ =>
    let place := c.cursor.advanceTo source start
    let cursor := place.advanceTo source p.innerRange.1
    match Expr.parseRangeAt source p.innerRange.1 p.innerRange.2 cursor with
    | .ok e => { c with cursor }.pushCode e
    | .error cause => { c with cursor }.pushKept ⟨String.ofList (blockText source p), place, cause⟩

/-- The template and the warnings of a composer that has passed all pieces (`Composer::finish`). -/
def finish (c : Composer) : Template × List Warning :=
  (ofSegments (c.segments ++ textSegment c.text), c.warnings)

end Composer

/-- The template that `source` is, and its warnings, made in one pass over its pieces. -/
def compose (source : String) : Template × List Warning :=
  ((Piece.split source.toList).foldl (Composer.push source.toList) .start).finish

namespace Composer

variable {source : List Char} {c : Composer}

/-! ## Adding parts -/

def add (c : Composer) : Part → Composer
  | .text content => c.pushText content
  | .code e => c.pushCode e
  | .kept warning => c.pushKept warning

/-- Parts are added as their segments and warnings are read off. -/
theorem finish_foldl_add (c : Composer) (parts : List Part) : (parts.foldl add c).finish =
    (ofSegments (c.segments ++ segmentsAfter c.text parts), c.warnings ++ parts.filterMap Part.warning?) := by
  induction parts generalizing c with
  | nil =>
    rw [List.filterMap_nil, List.append_nil]
    rfl
  | cons part parts ih =>
    rw [List.foldl_cons, ih]
    cases part with
    | text content => rfl
    | code e =>
      simp only [add, pushCode, segmentsAfter, List.append_assoc, List.cons_append, List.nil_append]
      rfl
    | kept warning =>
      simp only [add, pushKept, List.append_assoc, List.singleton_append]
      rfl

/-! ## Pushing pieces -/

/-- The cursor is the place of a byte that is not behind byte `n`. -/
structure Follows (source : List Char) (c : Composer) (n : Nat) : Prop where
  behind : c.cursor.offset ≤ n
  boundary : Text.isBoundary source c.cursor.offset
  placed : c.cursor = Location.atOffset source c.cursor.offset 0

theorem Follows.advanceTo {start stop : Nat} (h : Follows source c start) (hstop : Text.isBoundary source stop)
    (hle : start ≤ stop) : c.cursor.advanceTo source stop = Location.atOffset source stop 0 := by
  rw [h.placed]
  exact Location.advanceTo_atOffset (Nat.le_trans h.behind hle) h.boundary hstop 0

/-- A piece at byte `n` is added as the part that it is, and the cursor follows. -/
theorem Follows.push {pre post : List Char} {p : Piece} (h : Follows source c (Text.byteLength pre))
    (hsource : source = pre ++ (p.source ++ post)) (hstart : p.start = Text.byteLength pre) :
    ∃ cursor, c.push source p = { c with cursor }.add (partIn source p) ∧ Follows source { c with cursor } p.stop := by
  have hstop : p.start ≤ p.stop := Nat.le_add_right _ _
  have htext : blockText source p = p.source := by
    rw [hsource]
    exact blockText_append pre post p hstart
  cases p with
  | text start content =>
    refine ⟨c.cursor, ?_, ?_⟩
    · rw [Composer.push, htext]
      rfl
    · exact ⟨Nat.le_trans h.behind (hstart ▸ hstop), h.boundary, h.placed⟩
  | block start inner =>
    obtain rfl : start = Text.byteLength pre := hstart
    have hopening : Text.isBoundary source (Text.byteLength pre) := hsource ▸ Text.isBoundary_append pre _
    have hinside : Text.isBoundary source (Text.byteLength pre + 2) := by
      have hbraces := Text.isBoundary_append (pre ++ Piece.openBraces) (inner ++ (Piece.closeBraces ++ post))
      rw [Text.byteLength_append, List.append_assoc] at hbraces
      rwa [hsource, Piece.source, List.append_assoc, List.append_assoc]
    have hplace := h.advanceTo hopening (Nat.le_refl _)
    have hcursor := Location.advanceTo_atOffset (Nat.le_add_right _ 2) hopening hinside 0
    refine ⟨Location.atOffset source (Text.byteLength pre + 2) 0, ?_, ⟨?_, hinside, rfl⟩⟩
    · simp only [Composer.push, Piece.innerRange, hplace, hcursor, partIn, blockTree, Expr.parseRange,
        Expr.parseRangeAt, Cursor.ofRangeAt_atOffset]
      cases Expr.parseAt (Cursor.ofRange source (Text.byteLength pre + 2)
        (Text.byteLength pre + 2 + Text.byteLength inner)) <;> rfl
    · rw [Piece.stop, Piece.source, Text.byteLength_append, Text.byteLength_append]
      exact Nat.add_le_add_left (Nat.le_trans (Nat.le_add_right 2 _) (Nat.le_add_right _ _)) _

theorem Follows.add {n : Nat} (h : Follows source c n) (part : Part) : Follows source (c.add part) n := by
  cases part <;> exact ⟨h.behind, h.boundary, h.placed⟩

/-- Pieces that lie side by side are added as the parts that they are. -/
theorem Follows.finish_foldl_push {pre : List Char} {pieces : List Piece} (h : Follows source c (Text.byteLength pre))
    (hsource : source = pre ++ pieces.flatMap Piece.source) (hplace : Piece.Contiguous (Text.byteLength pre) pieces) :
    (pieces.foldl (Composer.push source) c).finish = ((pieces.map (partIn source)).foldl Composer.add c).finish := by
  induction pieces generalizing c pre with
  | nil => rfl
  | cons p pieces ih =>
    obtain ⟨hstart, hrest⟩ := hplace
    obtain ⟨cursor, hpush, hfollows⟩ := h.push hsource hstart
    have hstop : p.stop = Text.byteLength (pre ++ p.source) := by
      rw [Piece.stop, hstart, Text.byteLength_append]
    rw [hstop] at hfollows hrest
    have hsource' : source = (pre ++ p.source) ++ pieces.flatMap Piece.source := by
      rw [hsource, List.flatMap_cons, List.append_assoc]
    rw [List.foldl_cons, List.map_cons, List.foldl_cons, hpush, ih (hfollows.add _) hsource' hrest, finish_foldl_add,
      finish_foldl_add]
    cases partIn source p <;> rfl

end Composer

/-- **One pass makes the template** that its pieces make each by itself, with the same warnings. -/
theorem compose_eq_parseWithWarnings (source : String) : compose source = parseWithWarnings source := by
  have hstart : Composer.Follows source.toList .start (Text.byteLength []) := by
    refine ⟨Nat.le_refl 0, ?_, ?_⟩
    · exact Text.isBoundary_append [] source.toList
    · exact (Location.atOffset_append [] source.toList).symm
  rw [compose, hstart.finish_foldl_push (Piece.flatMap_source_split source.toList).symm (Piece.contiguous_split _),
    Composer.finish_foldl_add, ← parts_eq_map]
  rfl

/-- A warning has the line and column of the first byte of its block. -/
theorem placed_of_mem_warnings {source : String} {w : Warning} (hw : w ∈ (parseWithWarnings source).2) :
    Text.isBoundary source.toList w.location.offset ∧
      w.location = Location.atOffset source.toList w.location.offset 0 := by
  obtain ⟨before, inner, behind, hsource, -, -, hlocation⟩ := exists_block_of_mem_warnings hw
  rw [hlocation]
  refine ⟨?_, rfl⟩
  rw [hsource]
  exact Text.isBoundary_append before _

/-- **Lines and columns agree**: from place to place over any stops in between, token by token while a range is read,
and from block to block while a template is composed. -/
theorem places_agree (source : String) :
    (∀ start middle stop length : Nat, start ≤ middle → middle ≤ stop → Text.isBoundary source.toList start →
      Text.isBoundary source.toList middle → Text.isBoundary source.toList stop →
        ((Location.atOffset source.toList start length).advanceTo source.toList middle).advanceTo source.toList stop =
            (Location.atOffset source.toList start length).advanceTo source.toList stop ∧
          (Location.atOffset source.toList start length).advanceTo source.toList stop =
            Location.atOffset source.toList stop 0) ∧
    (∀ start stop : Nat, start ≤ stop → Text.isBoundary source.toList start → Text.isBoundary source.toList stop →
      (∀ calls t, ((Cursor.ofRangeAt source.toList start stop (Location.atOffset source.toList start 0)).goOn
          calls).next.1 = .ok t →
        t.location = Location.atOffset source.toList t.location.offset t.location.length) ∧
      ∀ ts, (Cursor.ofRangeAt source.toList start stop (Location.atOffset source.toList start 0)).tokens = .ok ts →
        ∀ t ∈ ts, t.location = Location.atOffset source.toList t.location.offset t.location.length) ∧
    compose source = parseWithWarnings source ∧
    ∀ w ∈ (compose source).2, w.location = Location.atOffset source.toList w.location.offset 0 := by
  refine ⟨?_, ?_, compose_eq_parseWithWarnings source, ?_⟩
  · intro start middle stop length hmiddle hstop hb hb' hb''
    have hstraight := Location.advanceTo_atOffset (Nat.le_trans hmiddle hstop) hb hb'' length
    rw [Location.advanceTo_atOffset hmiddle hb hb', Location.advanceTo_atOffset hstop hb' hb'', hstraight]
    exact ⟨rfl, rfl⟩
  · intro start stop hle hb hb'
    refine ⟨fun calls t ht => (Cursor.isPlaced_of_calls hle hb hb' calls ht).2, ?_⟩
    intro ts hts t ht
    obtain ⟨calls, hcalls⟩ := Cursor.exists_calls_of_mem_tokens hts ht
    exact (Cursor.isPlaced_of_calls hle hb hb' calls hcalls).2
  · intro w hw
    rw [compose_eq_parseWithWarnings] at hw
    exact (placed_of_mem_warnings hw).2

/-- A block on the second line, behind a character of two bytes. -/
theorem places_agree_secondLine :
    ((Location.atOffset "a\né\x7b\x7bx%\x7d\x7d".toList 1 0).advanceTo "a\né\x7b\x7bx%\x7d\x7d".toList 2).advanceTo
        "a\né\x7b\x7bx%\x7d\x7d".toList 4 = ⟨2, 2, 4, 0⟩ ∧
    (Cursor.ofRangeAt "a\né\x7b\x7bx%\x7d\x7d".toList 6 8
        (Location.atOffset "a\né\x7b\x7bx%\x7d\x7d".toList 6 0)).next.1 = .ok ⟨.ident "x", ⟨2, 4, 6, 1⟩⟩ ∧
    Location.atOffset "a\né\x7b\x7bx%\x7d\x7d".toList 6 1 = ⟨2, 4, 6, 1⟩ ∧
    (compose "a\né\x7b\x7bx%\x7d\x7d").2.map Warning.location = [⟨2, 2, 4, 0⟩] ∧
    Location.atOffset "a\né\x7b\x7bx%\x7d\x7d".toList 4 0 = ⟨2, 2, 4, 0⟩ := by
  obtain ⟨hplaces, htokens, -, hwarnings⟩ := places_agree "a\né\x7b\x7bx%\x7d\x7d"
  obtain ⟨hvia, hstraight⟩ := hplaces 1 2 4 0 (by decide) (by decide) (by decide) (by decide) (by decide)
  obtain ⟨hcalls, -⟩ := htokens 6 8 (by decide) (by decide) (by decide)
  have hnext : (Cursor.ofRangeAt "a\né\x7b\x7bx%\x7d\x7d".toList 6 8
      (Location.atOffset "a\né\x7b\x7bx%\x7d\x7d".toList 6 0)).next.1 = .ok ⟨.ident "x", ⟨2, 4, 6, 1⟩⟩ := by
    cbv
  have hcompose : (compose "a\né\x7b\x7bx%\x7d\x7d").2 = [⟨"\x7b\x7bx%\x7d\x7d", ⟨2, 2, 4, 0⟩,
      ⟨.unexpectedCharacter '%', 7, 1⟩⟩] := by
    cbv
  have hwarning := hwarnings _ (by rw [hcompose]; exact List.mem_singleton_self _)
  have hplace := hcalls 0 _ hnext
  exact ⟨hvia.trans (hstraight.trans hwarning.symm), hnext, hplace.symm, by rw [hcompose]; rfl, hwarning.symm⟩

end PropertyExpr.Template
