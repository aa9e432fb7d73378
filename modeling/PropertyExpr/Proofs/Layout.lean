import PropertyExpr.Template.Piece
/-!
# How a template is laid out

A layout puts a template together: stretches, each a text and the block behind it, and a tail in which nothing
opens that also closes. Every template has one (`exists_layout`), and a template that is put together is cut where
its layout says (`split_source`). So what the scanner does to a changed template follows from how the change keeps
the conditions of a layout.
-/
namespace PropertyExpr.Piece

/-! ## Where a block opens -/

/-- Two opening braces stand somewhere in the text. -/
def Opens (cs : List Char) : Prop := openBraces <:+: cs

instance (cs : List Char) : Decidable (Opens cs) := inferInstanceAs (Decidable (_ <:+: _))

theorem opens_append_left {a : List Char} (h : Opens a) (b : List Char) : Opens (a ++ b) := by
  apply h.trans
  exact (List.prefix_append a b).isInfix

theorem opens_append_right {b : List Char} (h : Opens b) (a : List Char) : Opens (a ++ b) := by
  apply h.trans
  exact (List.suffix_append a b).isInfix

theorem opens_cons_iff {c : Char} {cs : List Char} :
    Opens (c :: cs) ↔ openBraces.isPrefixOf (c :: cs) ∨ Opens cs := by
  rw [Opens, List.infix_cons_iff, List.isPrefixOf_iff_prefix]
  exact Iff.rfl

theorem breakAtOpening_of_not_opens {cs : List Char} (h : ¬ Opens cs) : breakAtOpening cs = (cs, []) := by
  induction cs with
  | nil => rfl
  | cons c cs ih =>
    rw [opens_cons_iff, not_or] at h
    rw [breakAtOpening, if_neg h.1, ih h.2]

/-- Whether two opening braces start right here is settled by the first brace of the two that come. -/
theorem isPrefixOf_cons_append (c : Char) (before rest : List Char) :
    openBraces.isPrefixOf (c :: (before ++ (openBraces ++ rest))) =
      openBraces.isPrefixOf (c :: (before ++ ['\x7b'])) := by
  cases before with
  | nil => rfl
  | cons d before => rfl

/-- The first two opening braces stand behind a text that up to the first of them has no two. -/
theorem breakAtOpening_openBraces {before : List Char} (h : ¬ Opens (before ++ ['\x7b'])) (rest : List Char) :
    breakAtOpening (before ++ (openBraces ++ rest)) = (before, openBraces ++ rest) := by
  induction before with
  | nil => rfl
  | cons c before ih =>
    rw [List.cons_append, opens_cons_iff, not_or, ← isPrefixOf_cons_append c before rest] at h
    rw [List.cons_append, breakAtOpening, if_neg h.1, ih h.2]

theorem exists_opening {cs : List Char} (h : Opens cs) :
    ∃ before rest, cs = before ++ (openBraces ++ rest) ∧ ¬ Opens (before ++ ['\x7b']) := by
  induction cs with
  | nil => exact absurd h (by decide)
  | cons c cs ih =>
    by_cases hfront : openBraces.isPrefixOf (c :: cs)
    · obtain ⟨rest, hrest⟩ := List.isPrefixOf_iff_prefix.1 hfront
      exact ⟨[], rest, hrest.symm, by decide⟩
    · obtain ⟨before, rest, rfl, hbefore⟩ := ih ((opens_cons_iff.1 h).resolve_left hfront)
      refine ⟨c :: before, rest, rfl, ?_⟩
      rw [List.cons_append, opens_cons_iff, not_or, ← isPrefixOf_cons_append c before rest]
      exact ⟨hfront, hbefore⟩

/-- A text opens for the first time in one place. -/
theorem body_unique {before before' body body' : List Char} (hbefore : ¬ Opens (before ++ ['\x7b']))
    (hbefore' : ¬ Opens (before' ++ ['\x7b'])) (h : before ++ (openBraces ++ body) = before' ++ (openBraces ++ body')) :
    body = body' := by
  have hopening := breakAtOpening_openBraces hbefore body
  rw [h, breakAtOpening_openBraces hbefore' body'] at hopening
  exact (List.cons.inj (List.cons.inj (congrArg Prod.snd hopening)).2).2.symm

/-! ## Where a block closes -/

/-- Whether closing braces end a block is settled by what stands before them. -/
theorem breakAtClosing?_closeBraces {inString : Bool} {cs inner rest : List Char}
    (h : breakAtClosing? inString cs = some (inner, rest)) (rest' : List Char) :
    breakAtClosing? inString (inner ++ (closeBraces ++ rest')) = some (inner, rest') := by
  fun_induction breakAtClosing? inString cs generalizing inner rest with
  | case1 => cases h
  | case2 inString cs ih =>
    obtain ⟨⟨inner, rest⟩, hcs, heq⟩ := Option.map_eq_some_iff.1 h
    cases heq
    rw [List.cons_append, breakAtClosing?, ih hcs]
    rfl
  | case3 inString c d cs hquote hescape ih =>
    obtain ⟨⟨inner, rest⟩, hcs, heq⟩ := Option.map_eq_some_iff.1 h
    cases heq
    rw [List.cons_append, List.cons_append, breakAtClosing?, if_pos hescape, ih hcs]
    · rfl
    · exact hquote
  | case4 inString c d cs hquote hescape hclose =>
    cases h
    simp only [Bool.and_eq_true, Bool.not_eq_true', decide_eq_true_eq] at hclose
    obtain ⟨⟨rfl, rfl⟩, rfl⟩ := hclose
    rfl
  | case5 inString c d cs hquote hescape hclose ih =>
    obtain ⟨⟨inner, rest⟩, hcs, heq⟩ := Option.map_eq_some_iff.1 h
    cases heq
    -- what stands behind `c` may be the closing braces, but it starts with the same character
    have hfront : (inner ++ (closeBraces ++ rest')).head? = some d := by
      have := eq_of_breakAtClosing? hcs
      cases inner with
      | nil => simpa [closeBraces] using (congrArg List.head? this).symm
      | cons e inner => simpa using (congrArg List.head? this).symm
    obtain ⟨ds, hds⟩ := List.head?_eq_some_iff.1 hfront
    rw [List.cons_append, hds, breakAtClosing?, if_neg hescape, if_neg hclose, ← hds, ih hcs]
    · rfl
    · exact hquote
  | case6 => cases h

/-- The closing braces behind `inner` are the first two outside a string literal. -/
def Encloses (inner : List Char) : Prop := breakAtClosing? false (inner ++ closeBraces) = some (inner, [])

instance (inner : List Char) : Decidable (Encloses inner) := inferInstanceAs (Decidable (_ = _))

theorem Encloses.breakAtClosing? {inner : List Char} (h : Encloses inner) (rest : List Char) :
    breakAtClosing? false (inner ++ (closeBraces ++ rest)) = some (inner, rest) :=
  breakAtClosing?_closeBraces h rest

theorem encloses_of_breakAtClosing? {cs inner rest : List Char}
    (h : breakAtClosing? false cs = some (inner, rest)) : Encloses inner := by
  have := breakAtClosing?_closeBraces h []
  rwa [List.append_nil] at this

/-! ## Layouts -/

/-- A text and the block behind it. -/
structure Stretch where
  before : List Char
  inner : List Char
  opens : ¬ Opens (before ++ ['\x7b'])
  encloses : Encloses inner

namespace Stretch

/-- The block, braces included. -/
def block (s : Stretch) : List Char := openBraces ++ s.inner ++ closeBraces

def source (s : Stretch) : List Char := s.before ++ s.block

/-- The pieces of a stretch that starts at byte `start`. -/
def pieces (start : Nat) (s : Stretch) : List Piece :=
  textAt start s.before ++ [.block (start + Text.byteLength s.before) s.inner]

end Stretch

/-- What opens first in the text does not close. -/
def Blockless (tail : List Char) : Prop :=
  ∀ before body, tail = before ++ (openBraces ++ body) → ¬ Opens (before ++ ['\x7b']) →
    breakAtClosing? false body = none

theorem blockless_of_not_opens {tail : List Char} (h : ¬ Opens tail) : Blockless tail := by
  rintro before body rfl -
  exact absurd (opens_append_right (opens_append_left (List.infix_refl _) body) before) h

theorem blockless_of_breakAtClosing? {before body : List Char} (hbefore : ¬ Opens (before ++ ['\x7b']))
    (h : breakAtClosing? false body = none) : Blockless (before ++ (openBraces ++ body)) := by
  intro before' body' hsource hbefore'
  rwa [← body_unique hbefore hbefore' hsource]

/-- A template put together from stretches and a tail. -/
structure Layout where
  stretches : List Stretch
  tail : List Char
  blockless : Blockless tail

namespace Layout

def source (l : Layout) : List Char := l.stretches.flatMap Stretch.source ++ l.tail

/-- The pieces of stretches, of which the first starts at byte `start`, and of the text behind them. -/
def piecesFrom (start : Nat) (tail : List Char) : List Stretch → List Piece
  | [] => textAt start tail
  | s :: stretches => s.pieces start ++ piecesFrom (start + Text.byteLength s.source) tail stretches

def pieces (l : Layout) : List Piece := piecesFrom 0 l.tail l.stretches

/-- The layout with one more stretch before it. -/
def cons (s : Stretch) (l : Layout) : Layout := ⟨s :: l.stretches, l.tail, l.blockless⟩

theorem source_cons (s : Stretch) (l : Layout) : (l.cons s).source = s.source ++ l.source := by
  simp only [source, cons, List.flatMap_cons, List.append_assoc]

end Layout

/-! ## Cutting a layout -/

theorem splitAt_of_not_opens {cs : List Char} (h : ¬ Opens cs) (start : Nat) : splitAt start cs = textAt start cs := by
  have hopening := breakAtOpening_of_not_opens h
  rw [splitAt]
  split
  · rename_i hbody
    rw [hopening] at hbody
    cases hbody
  · rfl

theorem splitAt_openBraces {before : List Char} (h : ¬ Opens (before ++ ['\x7b'])) (body : List Char) (start : Nat) :
    splitAt start (before ++ (openBraces ++ body)) =
      match breakAtClosing? false body with
      | some (inner, rest) =>
        textAt start before ++ .block (start + Text.byteLength before) inner ::
          splitAt (start + Text.byteLength before + 4 + Text.byteLength inner) rest
      | none => textAt start (before ++ (openBraces ++ body)) := by
  have hopening := breakAtOpening_openBraces h body
  rw [splitAt]
  split
  · rename_i body' hbody
    rw [hopening] at hbody
    obtain rfl : body = body' := (List.cons.inj (List.cons.inj hbody).2).2
    split
    · rename_i inner rest hclosing
      rw [hclosing, hopening]
    · rename_i hclosing
      rw [hclosing]
  · rename_i hnot
    rw [hopening] at hnot
    exact absurd rfl (hnot _ _ body)

theorem splitAt_of_blockless {tail : List Char} (h : Blockless tail) (start : Nat) :
    splitAt start tail = textAt start tail := by
  by_cases hopens : Opens tail
  · obtain ⟨before, body, rfl, hbefore⟩ := exists_opening hopens
    rw [splitAt_openBraces hbefore, h before body rfl hbefore]
  · exact splitAt_of_not_opens hopens start

/-- The first text and the first block are cut off. -/
theorem splitAt_block {before inner : List Char} (hbefore : ¬ Opens (before ++ ['\x7b'])) (hinner : Encloses inner)
    (rest : List Char) (start : Nat) :
    splitAt start (before ++ (openBraces ++ (inner ++ (closeBraces ++ rest)))) =
      textAt start before ++ .block (start + Text.byteLength before) inner ::
        splitAt (start + Text.byteLength before + 4 + Text.byteLength inner) rest := by
  rw [splitAt_openBraces hbefore, hinner.breakAtClosing?]

namespace Stretch

theorem source_append (s : Stretch) (rest : List Char) :
    s.source ++ rest = s.before ++ (openBraces ++ (s.inner ++ (closeBraces ++ rest))) := by
  simp only [source, block, List.append_assoc]

theorem byteLength_source (s : Stretch) :
    Text.byteLength s.source = Text.byteLength s.before + 4 + Text.byteLength s.inner := by
  have hopen : Text.byteLength openBraces = 2 := rfl
  have hclose : Text.byteLength closeBraces = 2 := rfl
  simp only [source, block, Text.byteLength_append, hopen, hclose]
  omega

/-- A stretch is cut off the front of a template. -/
theorem splitAt_source (s : Stretch) (start : Nat) (rest : List Char) :
    splitAt start (s.source ++ rest) = s.pieces start ++ splitAt (start + Text.byteLength s.source) rest := by
  rw [source_append, splitAt_block s.opens s.encloses, byteLength_source]
  simp only [pieces, List.append_assoc, List.singleton_append, Nat.add_assoc]

end Stretch

namespace Layout

theorem piecesFrom_eq_append (start : Nat) (tail : List Char) (stretches : List Stretch) :
    piecesFrom start tail stretches = piecesFrom start [] stretches ++
      textAt (start + Text.byteLength (stretches.flatMap Stretch.source)) tail := by
  induction stretches generalizing start with
  | nil => rfl
  | cons s stretches ih =>
    rw [piecesFrom, piecesFrom, ih, List.flatMap_cons, Text.byteLength_append, Nat.add_assoc, List.append_assoc]

/-- Stretches are cut off the front of a template. -/
theorem splitAt_flatMap_append (start : Nat) (rest : List Char) (stretches : List Stretch) :
    splitAt start (stretches.flatMap Stretch.source ++ rest) = piecesFrom start [] stretches ++
      splitAt (start + Text.byteLength (stretches.flatMap Stretch.source)) rest := by
  induction stretches generalizing start with
  | nil => rfl
  | cons s stretches ih =>
    rw [List.flatMap_cons, List.append_assoc, s.splitAt_source, ih, piecesFrom, Text.byteLength_append, Nat.add_assoc,
      List.append_assoc]

theorem splitAt_flatMap_source (start : Nat) {tail : List Char} (h : Blockless tail) (stretches : List Stretch) :
    splitAt start (stretches.flatMap Stretch.source ++ tail) = piecesFrom start tail stretches := by
  rw [splitAt_flatMap_append, splitAt_of_blockless h, ← piecesFrom_eq_append]

/-- **A template that is put together is cut where its layout says.** -/
theorem split_source (l : Layout) : split l.source = l.pieces := splitAt_flatMap_source 0 l.blockless l.stretches

end Layout

/-- **Every template has a layout.** -/
theorem exists_layout (cs : List Char) : ∃ l : Layout, l.source = cs := by
  by_cases hopens : Opens cs
  · obtain ⟨before, body, hcs, hbefore⟩ := exists_opening hopens
    cases hclosing : breakAtClosing? false body with
    | none =>
      refine ⟨⟨[], cs, ?_⟩, rfl⟩
      rw [hcs]
      exact blockless_of_breakAtClosing? hbefore hclosing
    | some inside =>
      -- the first stretch, and a layout of the shorter text behind it
      obtain ⟨inner, rest⟩ := inside
      have hbody := eq_of_breakAtClosing? hclosing
      have hencloses := encloses_of_breakAtClosing? hclosing
      obtain ⟨l, hl⟩ := exists_layout rest
      refine ⟨l.cons ⟨before, inner, hbefore, hencloses⟩, ?_⟩
      rw [Layout.source_cons, hl, Stretch.source_append, hcs, hbody, List.append_assoc]
  · exact ⟨⟨[], cs, blockless_of_not_opens hopens⟩, rfl⟩
termination_by cs.length
decreasing_by
  have hlength := congrArg List.length hcs
  have hlength' := congrArg List.length hbody
  simp only [List.length_append, closeBraces, List.length_cons] at hlength hlength'
  omega

/-! ## Where the pieces lie -/

/-- The pieces lie side by side, the first from byte `start` on. -/
def Contiguous : (start : Nat) → List Piece → Prop
  | _, [] => True
  | start, p :: pieces => p.start = start ∧ Contiguous p.stop pieces

theorem contiguous_append {start : Nat} {ps qs : List Piece} :
    Contiguous start (ps ++ qs) ↔
      Contiguous start ps ∧ Contiguous (start + Text.byteLength (ps.flatMap source)) qs := by
  induction ps generalizing start with
  | nil => simp [Contiguous]
  | cons p ps ih =>
    simp only [List.cons_append, Contiguous, ih, stop, List.flatMap_cons, Text.byteLength_append, and_assoc]
    constructor
    · rintro ⟨rfl, hps, hqs⟩
      exact ⟨rfl, hps, by rwa [Nat.add_assoc] at hqs⟩
    · rintro ⟨rfl, hps, hqs⟩
      exact ⟨rfl, hps, by rwa [Nat.add_assoc]⟩

theorem flatMap_source_textAt (start : Nat) (cs : List Char) : (textAt start cs).flatMap source = cs := by
  cases cs with
  | nil => rfl
  | cons c cs => exact List.append_nil _

theorem contiguous_textAt (start : Nat) (cs : List Char) : Contiguous start (textAt start cs) := by
  cases cs with
  | nil => trivial
  | cons c cs => exact ⟨rfl, trivial⟩

theorem Stretch.flatMap_source_pieces (s : Stretch) (start : Nat) :
    (s.pieces start).flatMap Piece.source = s.source := by
  rw [pieces, List.flatMap_append, flatMap_source_textAt, List.flatMap_singleton]
  rfl

theorem Stretch.contiguous_pieces (s : Stretch) (start : Nat) : Contiguous start (s.pieces start) := by
  rw [pieces, contiguous_append, flatMap_source_textAt]
  exact ⟨contiguous_textAt start s.before, rfl, trivial⟩

namespace Layout

theorem flatMap_source_piecesFrom (start : Nat) (tail : List Char) (stretches : List Stretch) :
    (piecesFrom start tail stretches).flatMap Piece.source = stretches.flatMap Stretch.source ++ tail := by
  induction stretches generalizing start with
  | nil => exact flatMap_source_textAt start tail
  | cons s stretches ih =>
    rw [piecesFrom, List.flatMap_append, s.flatMap_source_pieces, ih, List.flatMap_cons, List.append_assoc]

theorem contiguous_piecesFrom (start : Nat) (tail : List Char) (stretches : List Stretch) :
    Contiguous start (piecesFrom start tail stretches) := by
  induction stretches generalizing start with
  | nil => exact contiguous_textAt start tail
  | cons s stretches ih =>
    rw [piecesFrom, contiguous_append, s.flatMap_source_pieces]
    exact ⟨s.contiguous_pieces start, ih _⟩

end Layout

/-- **The pieces of a template spell it.** -/
theorem flatMap_source_split (cs : List Char) : (split cs).flatMap source = cs := by
  obtain ⟨l, rfl⟩ := exists_layout cs
  rw [l.split_source]
  exact Layout.flatMap_source_piecesFrom 0 l.tail l.stretches

theorem source_ne_nil_of_mem_textAt {start : Nat} {cs : List Char} {p : Piece} (hp : p ∈ textAt start cs) :
    p.source ≠ [] := by
  cases cs with
  | nil => cases hp
  | cons c cs =>
    obtain rfl := List.mem_singleton.1 hp
    exact List.cons_ne_nil c cs

theorem Layout.source_ne_nil_of_mem_piecesFrom {start : Nat} {tail : List Char} {stretches : List Stretch} {p : Piece}
    (hp : p ∈ piecesFrom start tail stretches) : p.source ≠ [] := by
  induction stretches generalizing start with
  | nil => exact source_ne_nil_of_mem_textAt hp
  | cons s stretches ih =>
    simp only [piecesFrom, Stretch.pieces, List.mem_append, List.mem_singleton] at hp
    rcases hp with (hp | rfl) | hp
    · exact source_ne_nil_of_mem_textAt hp
    · exact List.cons_ne_nil _ _
    · exact ih hp

/-- No piece is empty. -/
theorem source_ne_nil_of_mem_split {cs : List Char} {p : Piece} (hp : p ∈ split cs) : p.source ≠ [] := by
  obtain ⟨l, rfl⟩ := exists_layout cs
  rw [l.split_source] at hp
  exact Layout.source_ne_nil_of_mem_piecesFrom hp

/-- A piece that is all of a template is its only one. -/
theorem split_eq_singleton {cs : List Char} {p : Piece} (hp : p ∈ split cs) (h : p.source = cs) : split cs = [p] := by
  have hempty {pieces : List Piece} (hsub : ∀ q ∈ pieces, q ∈ split cs) (hnil : pieces.flatMap source = []) :
      pieces = [] := by
    rw [List.flatMap_eq_nil_iff] at hnil
    refine List.eq_nil_iff_forall_not_mem.2 ?_
    intro q hq
    exact source_ne_nil_of_mem_split (hsub q hq) (hnil q hq)
  obtain ⟨pre, post, hsplit⟩ := List.append_of_mem hp
  have hlength := congrArg List.length (flatMap_source_split cs)
  rw [hsplit, List.flatMap_append, List.flatMap_cons, h] at hlength
  simp only [List.length_append] at hlength
  have hpre : pre = [] :=
    hempty (fun q hq => by rw [hsplit]; simp [hq]) (List.eq_nil_of_length_eq_zero (by omega))
  have hpost : post = [] :=
    hempty (fun q hq => by rw [hsplit]; simp [hq]) (List.eq_nil_of_length_eq_zero (by omega))
  rw [hsplit, hpre, hpost]
  rfl

/-- **The pieces of a template lie side by side.** -/
theorem contiguous_split (cs : List Char) : Contiguous 0 (split cs) := by
  obtain ⟨l, rfl⟩ := exists_layout cs
  rw [l.split_source]
  exact Layout.contiguous_piecesFrom 0 l.tail l.stretches

end PropertyExpr.Piece
