import Mathlib
import PropertyExpr.Proofs.ByteScan
import PropertyExpr.Proofs.Closing
import PropertyExpr.Proofs.Quoting
import PropertyExpr.Proofs.Ranges
/-!
# Where a template is cut

`cut_split` — the pieces of a template lie side by side from its first byte to its last and are cut out between
characters. A block ends with the first closing braces behind its opening that stand outside of string literals, and
what opens in a text does so because it is not closed. A scan of the bytes finds the same ranges.

Most of it is read off the layout of the template, stretch by stretch: where a text stands in it
(`text_of_piecesFrom`), and that a block stands between two of them.
-/
namespace PropertyExpr.Piece

/-- The pieces lie side by side from byte `start` to byte `stop`, and none of them is empty. -/
def Covers : (start stop : Nat) → List Piece → Prop
  | start, stop, [] => start = stop
  | start, stop, p :: pieces => p.start = start ∧ start < p.stop ∧ Covers p.stop stop pieces

/-- What is said of the pieces of a source. -/
structure Cut (source : List Char) (pieces : List Piece) : Prop where
  covers : Covers 0 (Text.byteLength source) pieces
  /-- Ranges end between characters. -/
  boundaries : ∀ p ∈ pieces, Text.isBoundary source p.start ∧ Text.isBoundary source p.stop ∧
    Text.isBoundary source p.innerRange.1 ∧ Text.isBoundary source p.innerRange.2
  /-- A piece has the characters of its range. -/
  sliced : ∀ p ∈ pieces, Text.slice source p.start p.stop = p.source
  /-- A block is its inside and braces around it. -/
  braces : ∀ start inner, block start inner ∈ pieces →
    Text.slice source start (start + 2) = openBraces ∧
    Text.slice source ((block start inner).stop - 2) (block start inner).stop = closeBraces ∧
    (block start inner).innerRange = (start + 2, (block start inner).stop - 2) ∧
    Text.slice source (block start inner).innerRange.1 (block start inner).innerRange.2 = inner
  /-- Of two neighbours one is a block. -/
  apart : pieces.IsChain fun p q => p.isBlock ∨ q.isBlock
  /-- In a text with a piece behind it nothing opens. -/
  unopened : ∀ before start content after, pieces = before ++ text start content :: after → after ≠ [] →
    ¬ Opens content
  /-- What opens in the last text does not close. -/
  unclosed : ∀ before start content, pieces = before ++ [text start content] →
    ∀ front body, content = front ++ (openBraces ++ body) → ¬ Opens (front ++ ['\x7b']) →
      ∀ inner, ¬ Closes .outside inner body
  /-- A block ends as soon as it may. -/
  first : ∀ start inner, block start inner ∈ pieces →
    ∀ front body, source = front ++ (openBraces ++ body) → Text.byteLength front = start →
      ClosesFirst .outside inner body

theorem covers_of_contiguous {start : Nat} {pieces : List Piece} (h : Contiguous start pieces)
    (hne : ∀ p ∈ pieces, p.source ≠ []) : Covers start (start + Text.byteLength (pieces.flatMap source)) pieces := by
  induction pieces generalizing start with
  | nil => rfl
  | cons p pieces ih =>
    obtain ⟨hstart, hrest⟩ := h
    have hpos : 0 < Text.byteLength p.source :=
      Nat.pos_of_ne_zero (mt Text.byteLength_eq_zero (hne p List.mem_cons_self))
    have hcovers := ih hrest fun q hq => hne q (List.mem_cons_of_mem p hq)
    have hstop : p.stop = start + Text.byteLength p.source := by rw [stop, hstart]
    refine ⟨hstart, by omega, ?_⟩
    rw [List.flatMap_cons, Text.byteLength_append, ← Nat.add_assoc, ← hstop]
    exact hcovers

/-! ## Texts of a layout -/

theorem textAt_eq (start : Nat) (cs : List Char) : textAt start cs = if cs = [] then [] else [text start cs] := by
  cases cs with
  | nil => rfl
  | cons c cs => rfl

namespace Layout

/-- A text of a layout stands before a block, or it is the tail. -/
theorem text_of_piecesFrom {start start' : Nat} {tail content : List Char} {stretches : List Stretch}
    {before after : List Piece} (h : piecesFrom start tail stretches = before ++ text start' content :: after) :
    (∃ s ∈ stretches, content = s.before) ∧ after ≠ [] ∨ content = tail ∧ after = [] := by
  induction stretches generalizing start before with
  | nil =>
    rw [piecesFrom, textAt_eq] at h
    split at h
    · simp at h
    · cases before with
      | nil =>
        obtain ⟨htext, hafter⟩ := List.cons.inj h
        exact .inr ⟨(text.inj htext).2.symm, hafter.symm⟩
      | cons q before => simp at h
  | cons s stretches ih =>
    -- the text is in the stretches that follow, unless it is the one before the block
    have hrest {blocks : List Piece} (hblocks : .block (start + Text.byteLength s.before) s.inner ::
        piecesFrom (start + Text.byteLength s.source) tail stretches = blocks ++ text start' content :: after) :
        (∃ s' ∈ s :: stretches, content = s'.before) ∧ after ≠ [] ∨ content = tail ∧ after = [] := by
      cases blocks with
      | nil => cases hblocks
      | cons q blocks =>
        rcases ih (List.cons.inj hblocks).2 with ⟨⟨s', hmem, hcontent⟩, hafter⟩ | htail
        · exact .inl ⟨⟨s', List.mem_cons_of_mem s hmem, hcontent⟩, hafter⟩
        · exact .inr htail
    rw [piecesFrom, Stretch.pieces, List.append_assoc, List.singleton_append, textAt_eq] at h
    split at h
    · exact hrest h
    · cases before with
      | nil =>
        obtain ⟨htext, rfl⟩ := List.cons.inj h
        exact .inl ⟨⟨s, List.mem_cons_self, (text.inj htext).2.symm⟩, List.cons_ne_nil _ _⟩
      | cons q before => exact hrest (List.cons.inj h).2

theorem isChain_piecesFrom (start : Nat) (tail : List Char) (stretches : List Stretch) :
    (piecesFrom start tail stretches).IsChain fun p q => p.isBlock ∨ q.isBlock := by
  induction stretches generalizing start with
  | nil =>
    rw [piecesFrom, textAt_eq]
    split
    · exact .nil
    · exact .singleton _
  | cons s stretches ih =>
    have hblock : (.block (start + Text.byteLength s.before) s.inner ::
        piecesFrom (start + Text.byteLength s.source) tail stretches).IsChain fun p q => p.isBlock ∨ q.isBlock := by
      rw [List.isChain_cons]
      exact ⟨fun q _ => .inl rfl, ih _⟩
    rw [piecesFrom, Stretch.pieces, List.append_assoc, List.singleton_append, textAt_eq]
    split
    · exact hblock
    · rw [List.singleton_append, List.isChain_cons_cons]
      exact ⟨.inr rfl, hblock⟩

end Layout

/-! ## Ranges of pieces -/

section
variable {source : List Char} {p : Piece}

/-- A piece stands in the source where its range says. -/
theorem exists_place_of_mem_split (hp : p ∈ split source) :
    ∃ pre post, source = pre ++ (p.source ++ post) ∧ p.start = Text.byteLength pre := by
  obtain ⟨pre, post, hsource, hstart⟩ := Template.exists_place_of_mem [] (contiguous_split source) hp
  rw [flatMap_source_split, List.nil_append] at hsource
  exact ⟨pre, post, hsource, hstart⟩

theorem boundaries_of_mem_split (hp : p ∈ split source) :
    Text.isBoundary source p.start ∧ Text.isBoundary source p.stop ∧
      Text.isBoundary source p.innerRange.1 ∧ Text.isBoundary source p.innerRange.2 := by
  obtain ⟨pre, post, hsource, hstart⟩ := exists_place_of_mem_split hp
  have hboundary (front back : List Char) (hfront : source = front ++ back) {n : Nat} (hn : n = Text.byteLength front) :
      Text.isBoundary source n := by
    rw [hfront, hn]
    exact Text.isBoundary_append front back
  have hpstart := hboundary pre _ hsource hstart
  have hpstop : Text.isBoundary source p.stop := hboundary (pre ++ p.source) post (by rw [hsource, List.append_assoc])
    (by rw [Text.byteLength_append]; exact congrArg (· + Text.byteLength p.source) hstart)
  refine ⟨hpstart, hpstop, ?_⟩
  cases p with
  | text start content => exact ⟨hpstart, hpstop⟩
  | block start inner =>
    have hopen : Text.byteLength openBraces = 2 := rfl
    constructor
    · exact hboundary (pre ++ openBraces) (inner ++ closeBraces ++ post)
        (by rw [hsource]; simp only [Piece.source, List.append_assoc])
        (by rw [Text.byteLength_append, hopen, ← hstart]; rfl)
    · exact hboundary (pre ++ (openBraces ++ inner)) (closeBraces ++ post)
        (by rw [hsource]; simp only [Piece.source, List.append_assoc])
        (by rw [Text.byteLength_append, Text.byteLength_append, hopen, ← hstart, ← Nat.add_assoc]; rfl)

theorem braces_of_mem_split {start : Nat} {inner : List Char} (hp : block start inner ∈ split source) :
    Text.slice source start (start + 2) = openBraces ∧
      Text.slice source ((block start inner).stop - 2) (block start inner).stop = closeBraces ∧
      (block start inner).innerRange = (start + 2, (block start inner).stop - 2) ∧
      Text.slice source (block start inner).innerRange.1 (block start inner).innerRange.2 = inner := by
  have hstop := ByteScan.stop_block start inner
  have hinner : (block start inner).innerRange = (start + 2, (block start inner).stop - 2) := by
    rw [hstop]
    rfl
  have hopen : Text.byteLength openBraces = 2 := rfl
  have hclose : Text.byteLength closeBraces = 2 := rfl
  obtain ⟨pre, post, hsource, hstart⟩ := exists_place_of_mem_split hp
  rw [Piece.source] at hsource
  obtain rfl : start = Text.byteLength pre := hstart
  refine ⟨?_, ?_, hinner, slice_innerRange hp⟩
  · have hslice := Text.slice_append pre openBraces (inner ++ (closeBraces ++ post))
    rw [hopen] at hslice
    rw [hsource]
    simpa only [List.append_assoc] using hslice
  · have hslice := Text.slice_append (pre ++ (openBraces ++ inner)) closeBraces post
    have hfront : Text.byteLength (pre ++ (openBraces ++ inner)) = Text.byteLength pre + 2 + Text.byteLength inner := by
      rw [Text.byteLength_append, Text.byteLength_append, hopen, Nat.add_assoc]
    rw [hfront, hclose] at hslice
    rw [hstop, Nat.add_sub_cancel, hsource]
    simpa only [List.append_assoc] using hslice

/-- What stands behind the braces that open a block is its inside and the braces that close it, and these are the
first. -/
theorem closesFirst_of_mem_split {start : Nat} {inner front body : List Char} (hp : block start inner ∈ split source)
    (hsource : source = front ++ (openBraces ++ body)) (hfront : Text.byteLength front = start) :
    ClosesFirst .outside inner body := by
  obtain ⟨pre, post, hplace, hstart⟩ := exists_place_of_mem_split hp
  have hrest : (block start inner).source ++ post = openBraces ++ body := by
    have hdrop := Text.dropBytes_append pre ((block start inner).source ++ post)
    rw [← hplace, ← hstart, hsource, show (block start inner).start = Text.byteLength front from hfront.symm,
      Text.dropBytes_append] at hdrop
    exact hdrop.symm
  have hbody : body = inner ++ (closeBraces ++ post) := by
    rw [Piece.source, List.append_assoc, List.append_assoc] at hrest
    exact (List.append_cancel_left hrest).symm
  rw [hbody]
  exact closesFirst_of_breakAtClosing? ((encloses_of_mem_split hp).breakAtClosing? post)

end

/-- **A template is cut into blocks that end as soon as they may, and into the texts between them.** A scan of its
bytes finds the ranges of these pieces. -/
theorem cut_split (source : String) : Cut source.toList (split source.toList) ∧
    ByteScan.scan source.toUTF8.data.toList 0 = (split source.toList).map extent := by
  rw [← Text.bytes_toList]
  generalize source.toList = source
  refine ⟨?_, ByteScan.scan_bytes source⟩
  obtain ⟨l, hl⟩ := exists_layout source
  have hpieces : split source = l.pieces := by rw [← hl, l.split_source]
  exact {
    covers := by
      have hcovers := covers_of_contiguous (contiguous_split source) fun p hp => source_ne_nil_of_mem_split hp
      rwa [flatMap_source_split, Nat.zero_add] at hcovers
    boundaries := fun p hp => boundaries_of_mem_split hp
    sliced := fun p hp => Template.blockText_of_mem hp
    braces := fun start inner hp => braces_of_mem_split hp
    apart := by
      rw [hpieces]
      exact Layout.isChain_piecesFrom 0 l.tail l.stretches
    unopened := by
      intro before start content after hsplit hafter hopens
      rcases Layout.text_of_piecesFrom (hpieces ▸ hsplit) with ⟨⟨s, -, rfl⟩, -⟩ | ⟨-, hnil⟩
      · exact s.opens (opens_append_left hopens _)
      · exact hafter hnil
    unclosed := by
      intro before start content hsplit front body hcontent hfront
      rcases Layout.text_of_piecesFrom (hpieces ▸ hsplit) with ⟨-, hafter⟩ | ⟨rfl, -⟩
      · exact absurd rfl hafter
      · exact not_closes_of_breakAtClosing? (l.blockless front body hcontent hfront)
    first := fun start inner hp front body hsource hfront => closesFirst_of_mem_split hp hsource hfront }

end PropertyExpr.Piece
