import PropertyExpr.Proofs.Parts
import PropertyExpr.Proofs.Relocation
import PropertyExpr.Proofs.Rendering
/-!
# Templates one after the other

`appends_of_closed` — if no block of a template is left open, and no block opens where it meets the next one, the two
together are what each of them is: segments, warnings and rendered texts come one after the other. Blocks of the
second stand further on, by as many lines and bytes as the first is long.

The two meet inside of a text, which is cut into one piece where it was two. So the parts are not those of each; they
are `Alike`, which is all that segments and warnings depend on.
-/
namespace PropertyExpr

/-! ## Places behind a text -/

/-- The place once `pre` is put before the text. The first line goes on where `pre` ends. -/
def Location.behind (pre : List Char) (loc : Location) : Location where
  line := loc.line + pre.count '\n'
  column := if loc.line = 1 then (origin.after pre).column + (loc.column - 1) else loc.column
  offset := loc.offset + Text.byteLength pre
  length := loc.length

theorem Location.behind_after (pre cs : List Char) : (origin.after cs).behind pre = origin.after (pre ++ cs) := by
  have hline : (origin.after cs).line = 1 + cs.count '\n' := rfl
  rw [after_append]
  by_cases hfeed : '\n' ∈ cs
  · have hcount := List.count_pos_iff.2 hfeed
    have hne : ¬ (origin.after cs).line = 1 := by omega
    rw [behind, if_neg hne]
    simp only [after, hfeed, if_true, mk.injEq, and_true, true_and]
    exact ⟨Nat.add_right_comm _ _ _, Nat.add_right_comm _ _ _⟩
  · have hcount := List.count_eq_zero.2 hfeed
    have hone : (origin.after cs).line = 1 := by omega
    have hcolumn : origin.column + cs.length - 1 = cs.length := Nat.add_sub_cancel_left _ _
    rw [behind, if_pos hone]
    simp only [after, hfeed, if_false, mk.injEq, and_true, hcolumn, true_and]
    exact ⟨Nat.add_right_comm _ _ _, Nat.add_right_comm _ _ _⟩

/-- The warning once `pre` is put before the text. -/
def Warning.behind (pre : List Char) (w : Warning) : Warning :=
  ⟨w.block, w.location.behind pre, w.cause.moved (Text.byteLength pre)⟩

namespace Piece

/-! ## Where texts meet -/

/-- The first text ends with an opening brace and the second starts with one. -/
def BracesMeet (a b : List Char) : Prop := a.getLast? = some '\x7b' ∧ b.head? = some '\x7b'

instance (a b : List Char) : Decidable (BracesMeet a b) := inferInstanceAs (Decidable (_ ∧ _))

/-- Texts that do not open do not open where they meet, unless braces meet there. -/
theorem not_opens_append {a b : List Char} (ha : ¬ Opens a) (hb : ¬ Opens b) (hmeet : ¬ BracesMeet a b) :
    ¬ Opens (a ++ b) := by
  induction a with
  | nil => exact hb
  | cons c a ih =>
    rw [opens_cons_iff, not_or] at ha
    rw [List.cons_append, opens_cons_iff, not_or]
    cases a with
    | nil =>
      refine ⟨?_, hb⟩
      intro hfront
      apply hmeet
      rw [List.nil_append, List.isPrefixOf_iff_prefix] at hfront
      cases b with
      | nil => simpa [openBraces] using hfront.length_le
      | cons d b =>
        rw [openBraces, List.cons_prefix_cons, List.cons_prefix_cons] at hfront
        obtain ⟨rfl, rfl, -⟩ := hfront
        exact ⟨rfl, rfl⟩
    | cons d a => exact ⟨ha.1, ih ha.2 hmeet⟩

/-- Whether braces meet before a block is settled by the brace that opens it. -/
theorem bracesMeet_openBraces (a before body : List Char) :
    BracesMeet a (before ++ (openBraces ++ body)) ↔ BracesMeet a (before ++ ['\x7b']) := by
  cases before <;> exact Iff.rfl

theorem Blockless.append {a b : List Char} (ha : ¬ Opens a) (hb : Blockless b) (hmeet : ¬ BracesMeet a b) :
    Blockless (a ++ b) := by
  by_cases hopens : Opens b
  · obtain ⟨before, body, rfl, hbefore⟩ := exists_opening hopens
    have hclosing := hb before body rfl hbefore
    rw [bracesMeet_openBraces] at hmeet
    have hfirst := not_opens_append ha hbefore hmeet
    rw [← List.append_assoc] at hfirst ⊢
    exact blockless_of_breakAtClosing? hfirst hclosing
  · exact blockless_of_not_opens (not_opens_append ha hopens hmeet)

/-- A text that is put before a template becomes part of its first text. -/
theorem exists_splitAt_append {a b : List Char} (ha : ¬ Opens a) (hmeet : ¬ BracesMeet a b) (start : Nat) :
    ∃ first pieces, splitAt start (a ++ b) = textAt start (a ++ first) ++ pieces ∧
      splitAt (start + Text.byteLength a) b = textAt (start + Text.byteLength a) first ++ pieces := by
  obtain ⟨⟨stretches, tail, blockless⟩, rfl⟩ := exists_layout b
  cases stretches with
  | nil =>
    refine ⟨tail, [], ?_, ?_⟩
    · rw [List.append_nil]
      exact splitAt_of_blockless (Blockless.append ha blockless hmeet) start
    · rw [List.append_nil]
      exact splitAt_of_blockless blockless _
  | cons s stretches =>
    have hsource : Layout.source ⟨s :: stretches, tail, blockless⟩ =
        s.source ++ (stretches.flatMap Stretch.source ++ tail) := List.append_assoc _ _ _
    -- the first block opens where it did, behind one longer text
    rw [hsource, s.source_append, bracesMeet_openBraces] at hmeet
    have hfirst := not_opens_append ha s.opens hmeet
    rw [← List.append_assoc] at hfirst
    rw [hsource, s.source_append, ← List.append_assoc, splitAt_block hfirst s.encloses, splitAt_block s.opens s.encloses,
      Text.byteLength_append, ← Nat.add_assoc]
    exact ⟨s.before, _, rfl, rfl⟩

/-! ## Templates without an open block -/

/-- No text of the template opens a block: every block that is opened is closed. -/
def Closed (cs : List Char) : Prop := ∀ start content, .text start content ∈ split cs → ¬ Opens content

theorem not_opens_of_mem_textAt {start start' : Nat} {cs content : List Char} (h : ¬ Opens cs)
    (hmem : text start' content ∈ textAt start cs) : ¬ Opens content := by
  cases cs with
  | nil => cases hmem
  | cons c cs =>
    cases List.mem_singleton.1 hmem
    exact h

theorem Layout.not_opens_of_mem_piecesFrom {start start' : Nat} {tail content : List Char} {stretches : List Stretch}
    (h : ¬ Opens tail) (hmem : text start' content ∈ piecesFrom start tail stretches) : ¬ Opens content := by
  induction stretches generalizing start with
  | nil => exact not_opens_of_mem_textAt h hmem
  | cons s stretches ih =>
    simp only [piecesFrom, Stretch.pieces, List.mem_append, List.mem_singleton] at hmem
    rcases hmem with (hmem | hmem) | hmem
    · apply not_opens_of_mem_textAt _ hmem
      intro hopens
      exact s.opens (opens_append_left hopens _)
    · cases hmem
    · exact ih hmem

/-- Texts before blocks never open, so it is the tail that matters. -/
theorem Layout.closed_iff (l : Layout) : Closed l.source ↔ ¬ Opens l.tail := by
  rw [Closed, l.split_source, pieces]
  constructor
  · intro h
    rw [piecesFrom_eq_append] at h
    cases htail : l.tail with
    | nil => decide
    | cons c tail =>
      rw [htail] at h
      exact h _ _ (List.mem_append_right _ (List.mem_singleton_self _))
  · intro h start content hmem
    exact not_opens_of_mem_piecesFrom h hmem

end Piece

namespace Template.Part

open Piece (Stretch textAt)
open Piece.Layout (piecesFrom partsFrom)

/-! ## Parts behind a text -/

/-- The part once `pre` is put before the text. -/
def behind (pre : List Char) : Part → Part
  | kept warning => kept (warning.behind pre)
  | part => part

theorem segments_map_behind (pre : List Char) (parts : List Part) :
    segments (parts.map (behind pre)) = segments parts := by
  apply segments_congr
  rw [List.map_map]
  apply List.map_congr_left
  intro part _
  cases part <;> rfl

theorem filterMap_warning?_map_behind (pre : List Char) (parts : List Part) :
    (parts.map (behind pre)).filterMap warning? = (parts.filterMap warning?).map (Warning.behind pre) := by
  have hbehind : warning? ∘ behind pre = fun part => part.warning?.map (Warning.behind pre) := by
    funext part
    cases part <;> rfl
  rw [List.filterMap_map, List.map_filterMap, hbehind]

theorem map_behind_ofText (pre cs : List Char) : (ofText cs).map (behind pre) = ofText cs := by
  cases cs <;> rfl

theorem ofBlock_behind (pre passed inner : List Char) :
    ofBlock (pre ++ passed) inner = (ofBlock passed inner).behind pre := by
  have hoffset : ((Location.origin.after (pre ++ passed)).after Piece.openBraces).offset =
      ((Location.origin.after passed).after Piece.openBraces).offset + Text.byteLength pre := by
    simp only [Location.after, Text.byteLength_append]
    omega
  have hparse : Expr.parseAt ⟨inner, (Location.origin.after (pre ++ passed)).after Piece.openBraces⟩ =
      (Expr.parseAt ⟨inner, (Location.origin.after passed).after Piece.openBraces⟩).mapError
        (SyntaxError.moved (Text.byteLength pre)) := Expr.parseAt_moved rfl hoffset
  rw [ofBlock, ofBlock, ofPiece, ofPiece, hparse, ← Location.behind_after]
  cases Expr.parseAt ⟨inner, (Location.origin.after passed).after Piece.openBraces⟩ <;> rfl

theorem partsFrom_behind (pre tail : List Char) (stretches : List Stretch) (passed : List Char) :
    partsFrom (pre ++ passed) tail stretches = (partsFrom passed tail stretches).map (behind pre) := by
  induction stretches generalizing passed with
  | nil => exact (map_behind_ofText pre tail).symm
  | cons s stretches ih =>
    rw [partsFrom, partsFrom, List.map_append, List.map_cons, map_behind_ofText, List.append_assoc, List.append_assoc,
      ofBlock_behind, ih]

/-- A template behind `pre` has the same parts, moved. -/
theorem ofPieces_splitAt_behind (pre cs : List Char) :
    ofPieces (Location.origin.after pre) (Piece.splitAt (Text.byteLength pre) cs) = (parts cs).map (behind pre) := by
  obtain ⟨l, rfl⟩ := Piece.exists_layout cs
  have hbehind := partsFrom_behind pre l.tail l.stretches []
  rw [List.append_nil] at hbehind
  rw [l.parts_source, Piece.Layout.source, Piece.Layout.splitAt_flatMap_source _ l.blockless,
    Piece.Layout.ofPieces_piecesFrom, hbehind]

/-! ## Parts that are alike -/

/-- The same segments, whatever text is before them, and the same warnings. -/
def Alike (ps qs : List Part) : Prop :=
  (∀ before, segmentsAfter before ps = segmentsAfter before qs) ∧ ps.filterMap warning? = qs.filterMap warning?

theorem Alike.append_left {ps qs : List Part} (h : Alike ps qs) (front : List Part) :
    Alike (front ++ ps) (front ++ qs) := by
  obtain ⟨hsegments, hwarnings⟩ := h
  constructor
  · intro before
    rw [segmentsAfter_append, segmentsAfter_append, segments, segments, hsegments]
  · rw [List.filterMap_append, List.filterMap_append, hwarnings]

theorem segmentsAfter_ofText (before cs : List Char) (rest : List Part) :
    segmentsAfter before (ofText cs ++ rest) = segmentsAfter (before ++ cs) rest := by
  cases cs with
  | nil => rw [List.append_nil]; rfl
  | cons c cs => rfl

theorem filterMap_warning?_ofText (cs : List Char) (rest : List Part) :
    (ofText cs ++ rest).filterMap warning? = rest.filterMap warning? := by
  cases cs <;> rfl

/-- A text in one piece is like the same text in two. -/
theorem alike_ofText (a b : List Char) (rest : List Part) :
    Alike (ofText (a ++ b) ++ rest) (ofText a ++ (ofText b ++ rest)) := by
  constructor
  · intro before
    rw [segmentsAfter_ofText, segmentsAfter_ofText, segmentsAfter_ofText, List.append_assoc]
  · rw [filterMap_warning?_ofText, filterMap_warning?_ofText, filterMap_warning?_ofText]

/-- Where a text that does not open meets a template, the parts are like those of both. -/
theorem alike_splitAt_append {a b : List Char} (ha : ¬ Piece.Opens a) (hmeet : ¬ Piece.BracesMeet a b)
    (pre : List Char) :
    Alike (ofPieces (Location.origin.after pre) (Piece.splitAt (Text.byteLength pre) (a ++ b)))
      (ofText a ++ (parts b).map (behind (pre ++ a))) := by
  obtain ⟨first, pieces, hjoined, hcut⟩ := Piece.exists_splitAt_append ha hmeet (Text.byteLength pre)
  rw [← ofPieces_splitAt_behind, Text.byteLength_append, hjoined, hcut, ofPieces_append, ofPieces_append,
    ofPieces_textAt, ofPieces_textAt, Piece.flatMap_source_textAt, Piece.flatMap_source_textAt,
    ← List.append_assoc pre a first]
  exact alike_ofText a first _

/-- The parts of stretches and of what stands behind them. -/
theorem parts_flatMap_append (stretches : List Stretch) (rest : List Char) :
    parts (stretches.flatMap Stretch.source ++ rest) = partsFrom [] [] stretches ++
      ofPieces (Location.origin.after (stretches.flatMap Stretch.source))
        (Piece.splitAt (Text.byteLength (stretches.flatMap Stretch.source)) rest) := by
  have happend := ofPieces_append [] (piecesFrom 0 [] stretches)
    (Piece.splitAt (Text.byteLength (stretches.flatMap Stretch.source)) rest)
  rw [Piece.Layout.ofPieces_piecesFrom, Piece.Layout.flatMap_source_piecesFrom, List.append_nil,
    List.nil_append] at happend
  rw [parts, Piece.split, Piece.Layout.splitAt_flatMap_append, Nat.zero_add]
  exact happend

/-- **The parts of two texts** are like those of each, if nothing opens where the texts meet. -/
theorem alike_parts_append {a b : List Char} (hclosed : Piece.Closed a) (hmeet : ¬ Piece.BracesMeet a b) :
    Alike (parts (a ++ b)) (parts a ++ (parts b).map (behind a)) := by
  obtain ⟨l, rfl⟩ := Piece.exists_layout a
  -- the stretches of the first are cut off alike on both sides; only its tail meets the second
  have htail := l.closed_iff.1 hclosed
  have hmeet : ¬ Piece.BracesMeet l.tail b := by
    rintro ⟨hlast, hhead⟩
    apply hmeet
    rw [Piece.BracesMeet, Piece.Layout.source, List.getLast?_append, hlast]
    exact ⟨rfl, hhead⟩
  rw [Piece.Layout.source, List.append_assoc, parts_flatMap_append, parts_flatMap_append,
    Piece.splitAt_of_blockless l.blockless, ofPieces_textAt, List.append_assoc]
  exact (alike_splitAt_append htail hmeet _).append_left _

end Template.Part

/-! ## Rendered texts -/

section
variable (f : Reference → Except LookupError Value)

/-- Where the same reference is always answered alike, what was asked before makes no difference. -/
theorem Expr.value_ofFunction (e : Expr) (asked : List Reference) :
    e.value (.ofFunction f) asked = e.value (.ofFunction f) [] := by
  induction e generalizing asked with
  | number n => rfl
  | string s => rfl
  | ref r => rfl
  | binary op left right ihl ihr =>
    rw [Expr.value, Expr.value, ihl asked, ihr (_ ++ asked), ihr (_ ++ [])]

/-- The texts of segments, each by itself. -/
theorem Segment.values_ofFunction (segments : List Segment) (asked : List Reference) :
    Segment.values (.ofFunction f) asked segments = segments.map (Segment.value (.ofFunction f) []) := by
  induction segments generalizing asked with
  | nil => rfl
  | cons segment segments ih =>
    have hvalue : segment.value (.ofFunction f) asked = segment.value (.ofFunction f) [] := by
      cases segment with
      | text s => rfl
      | code e => rw [Segment.value, Segment.value, Expr.value_ofFunction]
    rw [Segment.values, ih, hvalue, List.map_cons]

/-- Texts that meet are rendered as one. -/
theorem Segment.join_value (first second : List Segment) :
    String.join ((Segment.join first second).map (Segment.value (.ofFunction f) [])) =
      String.join (first.map (Segment.value (.ofFunction f) [])) ++
        String.join (second.map (Segment.value (.ofFunction f) [])) := by
  fun_induction Segment.join first second with
  | case1 segments => simp
  | case2 a b segments => simp [Segment.value, String.append_assoc]
  | case3 segment rest segments _ ih => simp [ih, String.append_assoc]

end

namespace Template

/-- The text of the value of a template is that of its segments. -/
theorem text_value (env : Environment) (t : Template) :
    (t.value env).text = String.join (Segment.values env [] t.segments) := by
  cases t with
  | literal s =>
    rw [segments]
    split
    · rename_i h
      rw [h]
      rfl
    · simp [Segment.values, Segment.value, Template.value, Rendered.text]
  | single e => simp [segments, Segment.values, Segment.value, Template.value]
  | composite segments => rfl

/-- What two templates one after the other have of each. -/
structure Appends (s₁ s₂ : String) : Prop where
  /-- The segments of both, texts that meet being one. -/
  segments : (parse (s₁ ++ s₂)).segments = Segment.join (parse s₁).segments (parse s₂).segments
  /-- The warnings of both, those of the second moved behind the first. -/
  warnings : (parseWithWarnings (s₁ ++ s₂)).2 =
    (parseWithWarnings s₁).2 ++ (parseWithWarnings s₂).2.map (Warning.behind s₁.toList)
  /-- The texts of both, for answers that depend on the reference only. -/
  rendered : ∀ f : Reference → Except LookupError Value, ∃ r₁ r₂ r : Rendered,
    (render (.ofFunction f) s₁).result = .ok r₁ ∧ (render (.ofFunction f) s₂).result = .ok r₂ ∧
    (render (.ofFunction f) (s₁ ++ s₂)).result = .ok r ∧ r.text = r₁.text ++ r₂.text

theorem rendered_append {s₁ s₂ : String}
    (hsegments : (parse (s₁ ++ s₂)).segments = Segment.join (parse s₁).segments (parse s₂).segments)
    (f : Reference → Except LookupError Value) : ((parse (s₁ ++ s₂)).value (.ofFunction f)).text =
      ((parse s₁).value (.ofFunction f)).text ++ ((parse s₂).value (.ofFunction f)).text := by
  rw [text_value, text_value, text_value, hsegments, Segment.values_ofFunction, Segment.values_ofFunction,
    Segment.values_ofFunction, Segment.join_value]

/-- **Two templates one after the other** are what each of them is, if the first leaves no block open and the two do
not meet between braces. -/
theorem appends_of_closed {s₁ s₂ : String} (hclosed : Piece.Closed s₁.toList)
    (hmeet : ¬ Piece.BracesMeet s₁.toList s₂.toList) : Appends s₁ s₂ := by
  obtain ⟨hsegments, hwarnings⟩ := Part.alike_parts_append hclosed hmeet
  rw [← String.toList_append] at hsegments hwarnings
  have hjoin : (parse (s₁ ++ s₂)).segments = Segment.join (parse s₁).segments (parse s₂).segments := by
    have happend := hsegments []
    rw [Part.segmentsAfter_append, Part.segments_map_behind] at happend
    rw [segments_parse, segments_parse, segments_parse]
    exact happend
  refine ⟨hjoin, ?_, ?_⟩
  · rw [List.filterMap_append, Part.filterMap_warning?_map_behind] at hwarnings
    exact hwarnings
  · intro f
    exact ⟨_, _, _, result_render_eq_value _ s₁, result_render_eq_value _ s₂, result_render_eq_value _ (s₁ ++ s₂),
      rendered_append hjoin f⟩

/-- A brace at the end of the first template opens nothing with the braces in the second. -/
theorem appends_openBrace : Appends "\x7b\x7b1 + 2\x7d\x7d \x7b" "a\n\x7b\x7b3 +\x7d\x7d \x7b\x7b4\x7d\x7d" := by
  have hclosed := (Piece.Layout.closed_iff ⟨[⟨[], "1 + 2".toList, by decide, by decide⟩], " \x7b".toList,
    Piece.blockless_of_not_opens (by decide)⟩).2 (by decide)
  exact appends_of_closed hclosed (by decide)

end Template

end PropertyExpr
