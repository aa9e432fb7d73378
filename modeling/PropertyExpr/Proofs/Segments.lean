import PropertyExpr.Template.Parse
/-!
# How parts become segments

The text that stands between two expressions is one segment, however many parts it comes in. So the segments of two
rows of parts, one after the other, are the segments of each, joined where they meet (`segmentsAfter_append`); the
expressions are those of the parts in order (`filterMap_code?_segments`); no text is empty and no two texts are
neighbours (`merged_segments`).
-/
namespace PropertyExpr

namespace Segment

/-- The tree of a code segment. -/
def code? : Segment → Option Expr
  | text _ => none
  | code e => some e

/-- Two rows of segments, one after the other; texts that meet are one. -/
def join : List Segment → List Segment → List Segment
  | [], segments => segments
  | [.text a], .text b :: segments => .text (a ++ b) :: segments
  | segment :: rest, segments => segment :: join rest segments

theorem join_code (rest segments : List Segment) (e : Expr) :
    join (.code e :: rest) segments = .code e :: join rest segments := by
  cases rest <;> rfl

theorem join_text_code (rest segments : List Segment) (s : String) (e : Expr) :
    join (.text s :: .code e :: rest) segments = .text s :: .code e :: join rest segments := by
  rw [join, join_code]
  intro a b segments' _ hsegment hrest
  cases hrest

/-- No text is empty, and no two texts are neighbours. -/
def Merged (segments : List Segment) : Prop :=
  .text "" ∉ segments ∧ ∀ a b, ¬ [.text a, .text b] <:+: segments

theorem merged_nil : Merged [] := by
  refine ⟨by simp, ?_⟩
  intro a b h
  cases List.infix_nil.1 h

theorem merged_code {e : Expr} {segments : List Segment} (h : Merged segments) : Merged (.code e :: segments) := by
  refine ⟨by simpa using h.1, ?_⟩
  intro a b hab
  rcases List.infix_cons_iff.1 hab with hab | hab
  · simp [List.cons_prefix_cons] at hab
  · exact h.2 a b hab

theorem merged_text {s : String} (hs : s ≠ "") : Merged [.text s] := by
  refine ⟨by simpa using hs.symm, ?_⟩
  intro a b hab
  simpa using hab.length_le

theorem merged_text_code {s : String} {e : Expr} {segments : List Segment} (hs : s ≠ "") (h : Merged segments) :
    Merged (.text s :: .code e :: segments) := by
  refine ⟨by simpa [hs.symm] using h.1, ?_⟩
  intro a b hab
  rcases List.infix_cons_iff.1 hab with hab | hab
  · simp [List.cons_prefix_cons] at hab
  · exact (merged_code h).2 a b hab

end Segment

open Segment (join Merged)

namespace Template.Part

/-- The tree of a part that is code. -/
def code? : Part → Option Expr
  | code e => some e
  | _ => none

open segmentsAfter (textSegment)

/-! ## Parts one after the other -/

/-- Two texts that meet, with no third text behind them, are joined. -/
theorem textSegment_append (a b : List Char) {rest : List Segment} (hrest : ∀ s, rest.head? ≠ some (.text s)) :
    textSegment (a ++ b) ++ rest = join (textSegment a) (textSegment b ++ rest) := by
  cases a with
  | nil => rfl
  | cons c a =>
    cases b with
    | cons d b =>
      have hjoined : String.ofList (c :: a ++ d :: b) = String.ofList (c :: a) ++ String.ofList (d :: b) :=
        String.ofList_append
      exact congrArg (fun s => Segment.text s :: rest) hjoined
    | nil =>
      rw [List.append_nil]
      cases rest with
      | nil => rfl
      | cons segment rest =>
        cases segment with
        | text s => exact absurd rfl (hrest s)
        | code e => rfl

/-- What stands before a text only adds to it. -/
theorem segmentsAfter_append_before (a b : List Char) (parts : List Part) :
    segmentsAfter (a ++ b) parts = join (textSegment a) (segmentsAfter b parts) := by
  induction parts generalizing b with
  | nil =>
    have h : textSegment (a ++ b) ++ [] = join (textSegment a) (textSegment b ++ []) :=
      textSegment_append a b (by simp)
    rwa [List.append_nil, List.append_nil] at h
  | cons part parts ih =>
    cases part with
    | text content => rw [segmentsAfter, List.append_assoc, ih]; rfl
    | kept warning => rw [segmentsAfter, List.append_assoc, ih]; rfl
    | code e => exact textSegment_append a b (by simp)

/-- **The segments of parts one after the other** are those of each, joined, whatever text is before them. -/
theorem segmentsAfter_append (before : List Char) (ps qs : List Part) :
    segmentsAfter before (ps ++ qs) = join (segmentsAfter before ps) (segments qs) := by
  induction ps generalizing before with
  | nil =>
    have h := segmentsAfter_append_before before [] qs
    rwa [List.append_nil] at h
  | cons part ps ih =>
    cases part with
    | text content => exact ih _
    | kept warning => exact ih _
    | code e =>
      rw [List.cons_append, segmentsAfter, segmentsAfter, ih]
      cases before with
      | nil => exact (Segment.join_code _ _ e).symm
      | cons c before => exact (Segment.join_text_code _ _ _ e).symm

/-! ## What the segments of parts have in common -/

theorem filterMap_code?_segmentsAfter (before : List Char) (parts : List Part) :
    (segmentsAfter before parts).filterMap Segment.code? = parts.filterMap code? := by
  induction parts generalizing before with
  | nil => cases before <;> rfl
  | cons part parts ih =>
    cases part with
    | text content => exact ih _
    | kept warning => exact ih _
    | code e =>
      have htext : (textSegment before).filterMap Segment.code? = [] := by cases before <;> rfl
      rw [segmentsAfter, List.filterMap_append, htext, List.nil_append]
      exact congrArg (e :: ·) (ih [])

/-- **The expressions of a template** are those of its parts. -/
theorem filterMap_code?_segments (parts : List Part) :
    (segments parts).filterMap Segment.code? = parts.filterMap code? :=
  filterMap_code?_segmentsAfter [] parts

theorem ofList_cons_ne_empty (c : Char) (cs : List Char) : String.ofList (c :: cs) ≠ "" := by
  intro h
  have := congrArg String.toList h
  simp at this

theorem merged_segmentsAfter (before : List Char) (parts : List Part) : Merged (segmentsAfter before parts) := by
  induction parts generalizing before with
  | nil =>
    cases before with
    | nil => exact Segment.merged_nil
    | cons c before => exact Segment.merged_text (ofList_cons_ne_empty c before)
  | cons part parts ih =>
    cases part with
    | text content => exact ih _
    | kept warning => exact ih _
    | code e =>
      cases before with
      | nil => exact Segment.merged_code (ih [])
      | cons c before => exact Segment.merged_text_code (ofList_cons_ne_empty c before) (ih [])

/-- **The segments of parts** have no text that is empty and no two that are neighbours. -/
theorem merged_segments (parts : List Part) : Merged (segments parts) := merged_segmentsAfter [] parts

end Template.Part

/-- A template has the segments it is made of. -/
theorem Template.segments_ofSegments {segments : List Segment} (h : Merged segments) :
    (ofSegments segments).segments = segments := by
  cases segments with
  | nil => rfl
  | cons segment rest =>
    cases rest with
    | cons second rest => cases segment <;> rfl
    | nil =>
      cases segment with
      | code e => rfl
      | text s =>
        have hs : s ≠ "" := by
          rintro rfl
          exact h.1 (by simp)
        exact if_neg hs

/-- The segments of a parsed template are those of its parts. -/
theorem Template.segments_parse (source : String) :
    (parse source).segments = Part.segments (parts source.toList) :=
  segments_ofSegments (Part.merged_segments _)

end PropertyExpr
