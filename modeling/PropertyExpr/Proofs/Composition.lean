import PropertyExpr.Proofs.Layout
import PropertyExpr.Proofs.Segments
/-!
# What a parsed template accounts for

`accounts_parseWithWarnings` — every block of a template is either one code segment or one warning, in order, and
nothing else is lost, doubled or moved. What a block is reported with is said by its byte range in the source alone.

The parser keeps a running place and hands the inside of each block on as characters. `parts_eq_map` says that this
is the same as looking at each piece by itself, through its range: the pieces lie side by side, so the place of a
piece is that of its first byte.
-/
namespace PropertyExpr

/-! ## Ranges of the source -/

/-- The place of a byte between two characters is the one behind the text before it. -/
theorem Location.atOffset_append (a b : List Char) : atOffset (a ++ b) (Text.byteLength a) 0 = origin.after a := by
  have hslice : Text.slice (a ++ b) 0 (Text.byteLength a) = a := by simpa using Text.slice_append [] a b
  have hoffset : (origin.after a).offset = Text.byteLength a := Nat.zero_add _
  rw [atOffset, advanceTo, origin, hslice, ← origin, ← hoffset]
  rfl

theorem Cursor.ofRange_append (a b c : List Char) :
    ofRange (a ++ (b ++ c)) (Text.byteLength a) (Text.byteLength a + Text.byteLength b) =
      ⟨b, Location.origin.after a⟩ := by
  rw [ofRange, Text.slice_append, Location.atOffset_append]

namespace Piece

/-- Whether a piece is a block. -/
def isBlock : Piece → Bool
  | text .. => false
  | block .. => true

end Piece

namespace Template

/-- The blocks that a source is cut into, in order. -/
def blocks (source : List Char) : List Piece := (Piece.split source).filter Piece.isBlock

/-- The tree of the range between the braces of a block, parsed by itself, or why there is none. -/
def blockTree (source : List Char) (b : Piece) : Except SyntaxError Expr :=
  Expr.parseRange source b.innerRange.1 b.innerRange.2

/-- The range of a block, braces included. -/
def blockText (source : List Char) (b : Piece) : List Char := Text.slice source b.start b.stop

/-- The tree of a block that is an expression. -/
def blockExpr? (source : List Char) (b : Piece) : Option Expr := (blockTree source b).toOption

/-- Whether a block is an expression. -/
def isCode (source : List Char) (b : Piece) : Bool := (blockTree source b).isOk

def codeBlocks (source : List Char) : List Piece := (blocks source).filter (isCode source)

/-- What a block is reported with that is no expression. -/
def blockWarning? (source : List Char) (b : Piece) : Option Warning :=
  match blockTree source b with
  | .ok _ => none
  | .error cause => some ⟨String.ofList (blockText source b), Location.atOffset source b.start 0, cause⟩

/-- The part that a piece is, as far as its range says. -/
def partIn (source : List Char) : Piece → Part
  | .text _ content => .text content
  | .block start inner =>
    match blockTree source (.block start inner) with
    | .ok e => .code e
    | .error cause =>
      .kept ⟨String.ofList (blockText source (.block start inner)), Location.atOffset source start 0, cause⟩

theorem blockText_append (pre post : List Char) (p : Piece) (hstart : p.start = Text.byteLength pre) :
    blockText (pre ++ (p.source ++ post)) p = p.source := by
  rw [blockText, Piece.stop, hstart, Text.slice_append]

theorem blockTree_append (pre inner post : List Char) :
    blockTree (pre ++ ((Piece.block (Text.byteLength pre) inner).source ++ post))
        (.block (Text.byteLength pre) inner) =
      Expr.parseAt ⟨inner, (Location.origin.after pre).after Piece.openBraces⟩ := by
  have hopen : Text.byteLength pre + 2 = Text.byteLength (pre ++ Piece.openBraces) := by
    rw [Text.byteLength_append]
    rfl
  have hsource : pre ++ ((Piece.block (Text.byteLength pre) inner).source ++ post) =
      (pre ++ Piece.openBraces) ++ (inner ++ (Piece.closeBraces ++ post)) := by
    simp only [Piece.source, List.append_assoc]
  rw [blockTree, Expr.parseRange, Piece.innerRange, hsource, hopen, Cursor.ofRange_append, Location.after_append]

/-- Pieces that lie side by side behind `pre` are looked at one by one. -/
theorem ofPieces_eq_map (source pre : List Char) (pieces : List Piece)
    (hsource : source = pre ++ pieces.flatMap Piece.source)
    (hplace : Piece.Contiguous (Text.byteLength pre) pieces) :
    Part.ofPieces (Location.origin.after pre) pieces = pieces.map (partIn source) := by
  induction pieces generalizing pre with
  | nil => rfl
  | cons p pieces ih =>
    obtain ⟨hstart, hrest⟩ := hplace
    have hnext : p.stop = Text.byteLength (pre ++ p.source) := by
      rw [Piece.stop, hstart, Text.byteLength_append]
    rw [hnext] at hrest
    have hsource' : source = (pre ++ p.source) ++ pieces.flatMap Piece.source := by
      rw [hsource, List.flatMap_cons, List.append_assoc]
    rw [Part.ofPieces, ← Location.after_append, ih _ hsource' hrest, List.map_cons]
    congr 1
    cases p with
    | text start content => rfl
    | block start inner =>
      obtain rfl : start = Text.byteLength pre := hstart
      have htree := blockTree_append pre inner (pieces.flatMap Piece.source)
      have htext := blockText_append pre (pieces.flatMap Piece.source) (.block _ inner) rfl
      have hplace := Location.atOffset_append pre
        ((Piece.block (Text.byteLength pre) inner).source ++ pieces.flatMap Piece.source)
      rw [List.flatMap_cons] at hsource
      rw [← hsource] at htree htext hplace
      rw [partIn, Part.ofPiece, htree]
      cases Expr.parseAt ⟨inner, (Location.origin.after pre).after Piece.openBraces⟩ with
      | ok e => rfl
      | error cause => rw [htext, hplace]

/-- **The parts of a template**, each by its range. -/
theorem parts_eq_map (source : List Char) : parts source = (Piece.split source).map (partIn source) :=
  ofPieces_eq_map source [] (Piece.split source) (Piece.flatMap_source_split source).symm
    (Piece.contiguous_split source)

/-- Where a piece among pieces that lie side by side lies in the source. -/
theorem exists_place_of_mem (pre : List Char) {pieces : List Piece}
    (hplace : Piece.Contiguous (Text.byteLength pre) pieces) {p : Piece} (hp : p ∈ pieces) :
    ∃ pre' post, pre ++ pieces.flatMap Piece.source = pre' ++ (p.source ++ post) ∧
      p.start = Text.byteLength pre' := by
  induction pieces generalizing pre with
  | nil => cases hp
  | cons q pieces ih =>
    obtain ⟨hstart, hrest⟩ := hplace
    rcases List.mem_cons.1 hp with rfl | hp
    · exact ⟨pre, pieces.flatMap Piece.source, by rw [List.flatMap_cons], hstart⟩
    · rw [Piece.stop, hstart, ← Text.byteLength_append] at hrest
      obtain ⟨pre', post, hsource, hp⟩ := ih (pre ++ q.source) hrest hp
      exact ⟨pre', post, by rw [← hsource, List.flatMap_cons, List.append_assoc], hp⟩

/-- The range of a piece of the source holds the piece. -/
theorem blockText_of_mem {source : List Char} {p : Piece} (hp : p ∈ Piece.split source) :
    blockText source p = p.source := by
  obtain ⟨pre, post, hsource, hstart⟩ := exists_place_of_mem [] (Piece.contiguous_split source) hp
  rw [Piece.flatMap_source_split, List.nil_append] at hsource
  rw [hsource]
  exact blockText_append pre post p hstart

/-! ## What parts keep of pieces -/

theorem code?_partIn (source : List Char) (p : Piece) :
    (partIn source p).code? = if p.isBlock then blockExpr? source p else none := by
  cases p with
  | text start content => rfl
  | block start inner =>
    rw [partIn, blockExpr?]
    cases blockTree source (.block start inner) <;> rfl

theorem warning?_partIn (source : List Char) (p : Piece) :
    (partIn source p).warning? = if p.isBlock then blockWarning? source p else none := by
  cases p with
  | text start content => rfl
  | block start inner =>
    rw [partIn, blockWarning?]
    cases blockTree source (.block start inner) <;> rfl

/-! ## Spelling segments out -/

end Template

/-- Segments spelled out, each piece of code by the next text in `codes`. -/
def Segment.spell : List Segment → (codes : List (List Char)) → List Char
  | [], _ => []
  | .text s :: segments, codes => s.toList ++ spell segments codes
  | .code _ :: segments, codes => codes.headD [] ++ spell segments codes.tail

namespace Template

open Template.Part (segmentsAfter)
open Template.Part.segmentsAfter (textSegment)

theorem spell_textSegment (before : List Char) (segments : List Segment) (codes : List (List Char)) :
    Segment.spell (textSegment before ++ segments) codes = before ++ Segment.spell segments codes := by
  cases before with
  | nil => rfl
  | cons c before =>
    rw [textSegment, List.singleton_append, Segment.spell, String.toList_ofList]
    exact List.cons_ne_nil c before

/-- Pieces are spelled by their segments, if each expression is spelled as in the source. -/
theorem spell_segmentsAfter (source : List Char) (pieces : List Piece)
    (htext : ∀ p ∈ pieces, blockText source p = p.source) (before : List Char) :
    Segment.spell (segmentsAfter before (pieces.map (partIn source)))
        (((pieces.filter Piece.isBlock).filter (isCode source)).map (blockText source)) =
      before ++ pieces.flatMap Piece.source := by
  induction pieces generalizing before with
  | nil =>
    have h := spell_textSegment before [] []
    rwa [List.append_nil] at h
  | cons p pieces ih =>
    have hp := htext p (by simp)
    have ih := ih fun q hq => htext q (List.mem_cons_of_mem p hq)
    rw [List.flatMap_cons, ← List.append_assoc]
    cases p with
    | text start content => exact ih (before ++ content)
    | block start inner =>
      rw [List.filter_cons_of_pos rfl, List.map_cons]
      cases htree : blockTree source (.block start inner) with
      | ok e =>
        have hok : isCode source (.block start inner) := by rw [isCode, htree]; rfl
        rw [List.filter_cons_of_pos hok, List.map_cons, partIn, htree, segmentsAfter, spell_textSegment,
          Segment.spell, List.headD_cons, List.tail_cons, ih [], hp, List.append_assoc]
        rfl
      | error cause =>
        have hok : ¬ isCode source (.block start inner) := by rw [isCode, htree]; exact Bool.false_ne_true
        rw [List.filter_cons_of_neg hok, partIn, htree, segmentsAfter, String.toList_ofList, hp, ih]

/-! ## The shape of a template -/

/-- Segments without code are one text at most. -/
theorem eq_nil_or_text_of_merged {segments : List Segment} (h : Segment.Merged segments)
    (hcode : segments.filterMap Segment.code? = []) : segments = [] ∨ ∃ s, segments = [.text s] := by
  cases segments with
  | nil => exact .inl rfl
  | cons segment rest =>
    cases segment with
    | code e => cases hcode
    | text a =>
      cases rest with
      | nil => exact .inr ⟨a, rfl⟩
      | cons segment rest =>
        cases segment with
        | code e => cases hcode
        | text b => exact absurd (List.prefix_append [.text a, .text b] rest).isInfix (h.2 a b)

theorem ofSegments_eq_literal {segments : List Segment} {s : String} (h : ofSegments segments = .literal s) :
    segments.filterMap Segment.code? = [] := by
  unfold ofSegments at h
  split at h
  · rfl
  · rfl
  · cases h
  · cases h

theorem ofSegments_eq_composite {segments segments' : List Segment} (h : ofSegments segments = .composite segments') :
    segments' = segments ∧ 2 ≤ segments.length := by
  unfold ofSegments at h
  split at h
  · cases h
  · cases h
  · cases h
  · rename_i hnil htext hcode
    cases h
    refine ⟨rfl, ?_⟩
    cases segments with
    | nil => exact absurd rfl hnil
    | cons segment rest =>
      cases rest with
      | cons second rest => simp
      | nil =>
        cases segment with
        | text s => exact absurd rfl (htext s)
        | code e => exact absurd rfl (hcode e)

/-- The trees of the blocks that are expressions. -/
theorem map_blockTree_codeBlocks (source : List Char) : (codeBlocks source).map (blockTree source) =
    ((blocks source).filterMap (blockExpr? source)).map .ok := by
  rw [codeBlocks]
  induction blocks source with
  | nil => rfl
  | cons b bs ih =>
    cases htree : blockTree source b with
    | ok e =>
      have hcode : isCode source b := by rw [isCode, htree]; rfl
      have hoption : blockExpr? source b = some e := by rw [blockExpr?, htree]; rfl
      rw [List.filter_cons_of_pos hcode, List.map_cons, ih, List.filterMap_cons_some hoption, htree, List.map_cons]
    | error cause =>
      have hcode : ¬ isCode source b := by rw [isCode, htree]; exact Bool.false_ne_true
      have hoption : blockExpr? source b = none := by rw [blockExpr?, htree]; rfl
      rw [List.filter_cons_of_neg hcode, ih, List.filterMap_cons_none hoption]

/-! ## What the parser makes of a source -/

section
variable (source : String)

theorem filterMap_code?_parse : (parse source).segments.filterMap Segment.code? =
    (blocks source.toList).filterMap (blockExpr? source.toList) := by
  rw [segments_parse, Part.filterMap_code?_segments, parts_eq_map, List.filterMap_map, blocks, List.filterMap_filter]
  exact congrArg (List.filterMap · _) (funext (code?_partIn source.toList))

theorem warnings_parseWithWarnings :
    (parseWithWarnings source).2 = (blocks source.toList).filterMap (blockWarning? source.toList) := by
  have hwarnings : (parseWithWarnings source).2 = (parts source.toList).filterMap Part.warning? := rfl
  rw [hwarnings, parts_eq_map, List.filterMap_map, blocks, List.filterMap_filter]
  exact congrArg (List.filterMap · _) (funext (warning?_partIn source.toList))

variable {source} in
/-- What is warned of is a block whose inside is no expression. -/
theorem exists_block_of_mem_warnings {w : Warning} (hw : w ∈ (parseWithWarnings source).2) :
    ∃ before inner behind,
      source.toList = before ++ ((Piece.block (Text.byteLength before) inner).source ++ behind) ∧
      blockTree source.toList (.block (Text.byteLength before) inner) = .error w.cause ∧
      w.block.toList = (Piece.block (Text.byteLength before) inner).source ∧
      w.location = Location.atOffset source.toList (Text.byteLength before) 0 := by
  rw [warnings_parseWithWarnings] at hw
  obtain ⟨b, hb, hwarning⟩ := List.mem_filterMap.1 hw
  obtain ⟨hmem, hblock⟩ := List.mem_filter.1 hb
  obtain ⟨before, behind, hsource, hstart⟩ :=
    exists_place_of_mem [] (Piece.contiguous_split source.toList) hmem
  rw [Piece.flatMap_source_split, List.nil_append] at hsource
  cases b with
  | text => cases hblock
  | block start inner =>
    obtain rfl : start = Text.byteLength before := hstart
    rw [blockWarning?, blockText_of_mem hmem] at hwarning
    cases htree : blockTree source.toList (.block (Text.byteLength before) inner) with
    | ok e =>
      rw [htree] at hwarning
      cases hwarning
    | error cause =>
      rw [htree] at hwarning
      obtain rfl := Option.some.inj hwarning
      exact ⟨before, inner, behind, hsource, htree, String.toList_ofList, rfl⟩

theorem spell_parse : Segment.spell (parse source).segments
    ((codeBlocks source.toList).map (blockText source.toList)) = source.toList := by
  have hspell := spell_segmentsAfter source.toList (Piece.split source.toList) (fun p => blockText_of_mem) []
  rw [Piece.flatMap_source_split, List.nil_append] at hspell
  rw [segments_parse, parts_eq_map]
  exact hspell

theorem codeBlocks_eq_nil_iff :
    codeBlocks source.toList = [] ↔ (parse source).segments.filterMap Segment.code? = [] := by
  have hmap := map_blockTree_codeBlocks source.toList
  rw [← filterMap_code?_parse] at hmap
  constructor
  · intro h
    rw [h] at hmap
    exact List.map_eq_nil_iff.1 hmap.symm
  · intro h
    rw [h] at hmap
    exact List.map_eq_nil_iff.1 hmap

theorem parse_eq_ofSegments : parse source = ofSegments (parse source).segments := by
  rw [segments_parse]
  rfl

theorem merged_parse : Segment.Merged (parse source).segments := by
  rw [segments_parse]
  exact Part.merged_segments _

theorem parse_eq_literal_iff : (∃ s, parse source = .literal s) ↔ codeBlocks source.toList = [] := by
  rw [codeBlocks_eq_nil_iff]
  constructor
  · rintro ⟨s, h⟩
    rw [parse_eq_ofSegments] at h
    exact ofSegments_eq_literal h
  · intro h
    rw [parse_eq_ofSegments]
    rcases eq_nil_or_text_of_merged (merged_parse source) h with h | ⟨s, h⟩
    · exact ⟨"", by rw [h]; rfl⟩
    · exact ⟨s, by rw [h]; rfl⟩

theorem spell_literal (s : String) (codes : List (List Char)) :
    Segment.spell (literal s).segments codes = s.toList := by
  rw [segments]
  split
  · rename_i h
    rw [h]
    rfl
  · exact List.append_nil _

/-- A template without code is its source. -/
theorem parse_eq_literal_source_iff : parse source = .literal source ↔ codeBlocks source.toList = [] := by
  constructor
  · intro h
    exact (parse_eq_literal_iff source).1 ⟨source, h⟩
  · intro h
    obtain ⟨s, hs⟩ := (parse_eq_literal_iff source).2 h
    have hspell := spell_parse source
    rw [hs, spell_literal] at hspell
    rw [hs, String.toList_inj.1 hspell]

/-- A template is a single expression if it is one block that is an expression. -/
theorem parse_eq_single_iff : (∃ e, parse source = .single e) ↔
    ∃ b, Piece.split source.toList = [b] ∧ codeBlocks source.toList = [b] := by
  constructor
  · rintro ⟨e, h⟩
    have hmap := map_blockTree_codeBlocks source.toList
    have hspell := spell_parse source
    rw [← filterMap_code?_parse] at hmap
    rw [h] at hmap hspell
    obtain ⟨b, hb, -⟩ := List.map_eq_singleton_iff.1 hmap
    have hmem : b ∈ Piece.split source.toList := by
      have hb : b ∈ codeBlocks source.toList := by rw [hb]; simp
      exact (List.mem_filter.1 (List.mem_filter.1 hb).1).1
    have hall : Segment.spell [.code e] [blockText source.toList b] = b.source := by
      rw [blockText_of_mem hmem]
      exact List.append_nil _
    rw [hb] at hspell
    exact ⟨b, Piece.split_eq_singleton hmem (hall.symm.trans hspell), hb⟩
  · rintro ⟨b, hsplit, hb⟩
    have hmem : b ∈ codeBlocks source.toList := by rw [hb]; simp
    obtain ⟨hblock, hcode⟩ := List.mem_filter.1 hmem
    have hblock := (List.mem_filter.1 hblock).2
    cases b with
    | text => cases hblock
    | block start inner =>
      rw [isCode] at hcode
      cases htree : blockTree source.toList (.block start inner) with
      | error cause =>
        rw [htree] at hcode
        cases hcode
      | ok e =>
        refine ⟨e, ?_⟩
        rw [parse_eq_ofSegments, segments_parse, parts_eq_map, hsplit, List.map_singleton, partIn, htree]
        rfl

theorem composite_of_parse {segments : List Segment} (h : parse source = .composite segments) :
    2 ≤ segments.length ∧ (∃ e, .code e ∈ segments) ∧ Segment.Merged segments := by
  rw [parse_eq_ofSegments] at h
  obtain ⟨rfl, hlength⟩ := ofSegments_eq_composite h
  have hmerged := merged_parse source
  refine ⟨hlength, ?_, hmerged⟩
  cases hcode : (parse source).segments.filterMap Segment.code? with
  | nil =>
    rcases eq_nil_or_text_of_merged hmerged hcode with hnil | ⟨s, htext⟩
    · simp [hnil] at hlength
    · simp [htext] at hlength
  | cons e es =>
    have he : e ∈ (parse source).segments.filterMap Segment.code? := by rw [hcode]; simp
    obtain ⟨segment, hsegment, hcode⟩ := List.mem_filterMap.1 he
    cases segment with
    | text => cases hcode
    | code e' =>
      cases hcode
      exact ⟨e, hsegment⟩

end

/-- A template and warnings that account for a source. -/
structure Accounts (source : String) (t : Template) (warnings : List Warning) : Prop where
  /-- The code is that of the blocks that are expressions, in order. -/
  code : t.segments.filterMap Segment.code? =
    (blocks source.toList).filterMap (blockExpr? source.toList)
  /-- The warnings are about the other blocks, in order. -/
  warned : warnings = (blocks source.toList).filterMap (blockWarning? source.toList)
  /-- Nothing else is lost, doubled or moved. -/
  spelled : Segment.spell t.segments ((codeBlocks source.toList).map (blockText source.toList)) = source.toList
  literal : (∃ s, t = .literal s) ↔ codeBlocks source.toList = []
  literal_source : t = .literal source ↔ codeBlocks source.toList = []
  single : (∃ e, t = .single e) ↔ ∃ b, Piece.split source.toList = [b] ∧ codeBlocks source.toList = [b]
  composite : ∀ segments, t = .composite segments →
    2 ≤ segments.length ∧ (∃ e, .code e ∈ segments) ∧ Segment.Merged segments

/-- **A parsed template and its warnings account for the source**: each block is code or a warning, what is not code
is text, and the template is a text, a single expression or a mix of both as the source is. -/
theorem accounts_parseWithWarnings (source : String) :
    Accounts source (parseWithWarnings source).1 (parseWithWarnings source).2 where
  code := filterMap_code?_parse source
  warned := warnings_parseWithWarnings source
  spelled := spell_parse source
  literal := parse_eq_literal_iff source
  literal_source := parse_eq_literal_source_iff source
  single := parse_eq_single_iff source
  composite _ := composite_of_parse source

end Template

end PropertyExpr
