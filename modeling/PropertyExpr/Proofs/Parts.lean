import PropertyExpr.Proofs.Layout
import PropertyExpr.Proofs.Segments
/-!
# The parts of a layout

`parts_source` — the parts of a template are read off its layout: a text is itself, and a block is looked at behind
the text before it. Of where they stand, parts keep only what is reported; `Part.bare` leaves that out, and what is
made of parts is made of their bare forms (`segments_congr`, `map_block_congr`).
-/
namespace PropertyExpr

open Piece (Stretch textAt)

namespace Template.Part

/-! ## Parts and where they stand -/

/-- The part without where its block stands and why it was kept. -/
def bare : Part → Part
  | kept warning => kept { warning with location := .origin, cause := default }
  | part => part

theorem segmentsAfter_map_bare (before : List Char) (parts : List Part) :
    segmentsAfter before (parts.map bare) = segmentsAfter before parts := by
  induction parts generalizing before with
  | nil => rfl
  | cons part parts ih =>
    cases part with
    | text content => exact ih _
    | kept warning => exact ih _
    | code e => exact congrArg (segmentsAfter.textSegment before ++ .code e :: ·) (ih [])

/-- Where parts stand makes no difference to their segments. -/
theorem segments_congr {ps qs : List Part} (h : ps.map bare = qs.map bare) : segments ps = segments qs := by
  rw [segments, segments, ← segmentsAfter_map_bare [] ps, h, segmentsAfter_map_bare]

theorem map_block_map_bare (parts : List Part) : ((parts.map bare).filterMap warning?).map Warning.block =
    (parts.filterMap warning?).map Warning.block := by
  induction parts with
  | nil => rfl
  | cons part parts ih =>
    cases part with
    | text content => exact ih
    | code e => exact ih
    | kept warning => exact congrArg (warning.block :: ·) ih

/-- Nor to which blocks are kept. -/
theorem map_block_congr {ps qs : List Part} (h : ps.map bare = qs.map bare) :
    (ps.filterMap warning?).map Warning.block = (qs.filterMap warning?).map Warning.block := by
  rw [← map_block_map_bare ps, h, map_block_map_bare]

/-! ## Parts of texts and blocks -/

/-- The part of a text, unless it is empty. -/
def ofText : List Char → List Part
  | [] => []
  | content => [.text content]

/-- The part of a block behind `pre`. -/
def ofBlock (pre inner : List Char) : Part :=
  ofPiece (Location.origin.after pre) (.block (Text.byteLength pre) inner)

theorem ofPieces_textAt (location : Location) (start : Nat) (cs : List Char) :
    ofPieces location (textAt start cs) = ofText cs := by
  cases cs <;> rfl

/-- Pieces behind `pre`, one after the other, are looked at one after the other. -/
theorem ofPieces_append (pre : List Char) (ps qs : List Piece) :
    ofPieces (Location.origin.after pre) (ps ++ qs) = ofPieces (Location.origin.after pre) ps ++
      ofPieces (Location.origin.after (pre ++ ps.flatMap Piece.source)) qs := by
  induction ps generalizing pre with
  | nil => rw [List.flatMap_nil, List.append_nil]; rfl
  | cons p ps ih =>
    rw [List.cons_append, ofPieces, ofPieces, ← Location.after_append, ih, List.flatMap_cons, List.append_assoc,
      List.cons_append]

theorem ofPieces_pieces (s : Stretch) (pre : List Char) (start : Nat) :
    ofPieces (Location.origin.after pre) (s.pieces start) = ofText s.before ++ [ofBlock (pre ++ s.before) s.inner] := by
  rw [Stretch.pieces, ofPieces_append, ofPieces_textAt, Piece.flatMap_source_textAt]
  rfl

end Template.Part

namespace Piece.Layout

open Template.Part (ofText ofBlock ofPieces ofPieces_append ofPieces_pieces ofPieces_textAt)

/-- The parts of stretches behind `pre` and of the text behind them. -/
def partsFrom (pre tail : List Char) : List Stretch → List Template.Part
  | [] => ofText tail
  | s :: stretches =>
    ofText s.before ++ ofBlock (pre ++ s.before) s.inner :: partsFrom (pre ++ s.source) tail stretches

theorem ofPieces_piecesFrom (start : Nat) (tail : List Char) (stretches : List Stretch) (pre : List Char) :
    ofPieces (Location.origin.after pre) (piecesFrom start tail stretches) = partsFrom pre tail stretches := by
  induction stretches generalizing start pre with
  | nil => exact ofPieces_textAt _ _ tail
  | cons s stretches ih =>
    rw [piecesFrom, ofPieces_append, s.flatMap_source_pieces, ih, ofPieces_pieces, partsFrom, List.append_assoc,
      List.singleton_append]

/-- **The parts of a template** are those of its layout. -/
theorem parts_source (l : Layout) : Template.parts l.source = partsFrom [] l.tail l.stretches := by
  rw [Template.parts, l.split_source]
  exact ofPieces_piecesFrom 0 l.tail l.stretches []

end Piece.Layout

end PropertyExpr
