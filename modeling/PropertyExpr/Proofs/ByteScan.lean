import Mathlib
import PropertyExpr.Proofs.Ranges
import PropertyExpr.Proofs.Quoting
import PropertyExpr.Proofs.Composition
/-!
# Scanning the bytes of a template: `template::scanner::Scanner`

A scanner that works on bytes knows nothing of characters. It looks for pairs of braces, and in a string literal a
backslash makes it pass over one byte, which may be the first of several that make up a character. `scan_bytes` says
that it finds the byte ranges of the pieces all the same: the bytes of a character outside of ASCII are all from 128
on, so none of them is a brace, a quote or a backslash, and it is no matter how many of them are passed over at once.
-/
namespace PropertyExpr

namespace Text

/-- The bytes of a text in UTF-8. -/
def bytes (cs : List Char) : List UInt8 := cs.flatMap String.utf8EncodeChar

theorem bytes_cons (c : Char) (cs : List Char) : bytes (c :: cs) = String.utf8EncodeChar c ++ bytes cs := rfl

theorem bytes_append (a b : List Char) : bytes (a ++ b) = bytes a ++ bytes b := List.flatMap_append

/-- They are the bytes that a string is. -/
theorem bytes_toList (s : String) : bytes s.toList = s.toUTF8.data.toList := by
  have h : s.toUTF8 = (bytes s.toList).toByteArray := by
    rw [String.toUTF8_eq_toByteArray, ← String.utf8Encode_toList, List.utf8Encode, bytes]
  rw [h, List.toList_data_toByteArray]

theorem length_bytes (cs : List Char) : (bytes cs).length = byteLength cs := by
  induction cs with
  | nil => rfl
  | cons c cs ih => rw [bytes_cons, List.length_append, String.length_utf8EncodeChar, ih, byteLength_cons]

theorem drop_bytes_append (a b : List Char) : (bytes (a ++ b)).drop (byteLength a) = bytes b := by
  rw [bytes_append, ← length_bytes, List.drop_left]

/-- A character is one byte that is its number, or all its bytes are from 128 on. -/
theorem utf8EncodeChar_cases (c : Char) :
    (c.toNat < 128 ∧ String.utf8EncodeChar c = [c.toUInt8]) ∨
      (128 ≤ c.toNat ∧ ∀ b ∈ String.utf8EncodeChar c, 128 ≤ b.toNat) := by
  have hval : c.val.toNat = c.toNat := rfl
  rcases Nat.lt_or_ge c.toNat 128 with h | h
  · refine .inl ⟨h, ?_⟩
    rw [String.utf8EncodeChar, hval]
    exact if_pos (Nat.le_of_lt_succ h)
  · refine .inr ⟨h, ?_⟩
    rw [String.utf8EncodeChar, hval]
    intro b hb
    split at hb
    · omega
    · split at hb
      · simp at hb
        rcases hb with rfl | rfl <;> simp <;> omega
      · split at hb <;> simp at hb
        · rcases hb with rfl | rfl | rfl <;> simp <;> omega
        · rcases hb with rfl | rfl | rfl | rfl <;> simp <;> omega

theorem toNat_toUInt8 {c : Char} (h : c.toNat < 128) : c.toUInt8.toNat = c.toNat := by
  show c.val.toUInt8.toNat = c.val.toNat
  rw [UInt32.toNat_toUInt8]
  exact Nat.mod_eq_of_lt (Nat.lt_trans h (by decide))

/-- In ASCII a byte tells the character. -/
theorem toUInt8_inj {c d : Char} (hc : c.toNat < 128) (hd : d.toNat < 128) : c.toUInt8 = d.toUInt8 ↔ c = d := by
  constructor
  · intro h
    have hnat := congrArg UInt8.toNat h
    rw [toNat_toUInt8 hc, toNat_toUInt8 hd] at hnat
    exact Char.toNat_inj.1 hnat
  · rintro rfl
    rfl

/-- The first byte of a text is that of an ASCII character only if the text starts with it. -/
theorem head?_bytes_eq_some_iff {d : Char} (hd : d.toNat < 128) (cs : List Char) :
    (bytes cs).head? = some d.toUInt8 ↔ cs.head? = some d := by
  cases cs with
  | nil => simp [bytes]
  | cons c cs =>
    rw [bytes_cons, List.head?_cons]
    rcases utf8EncodeChar_cases c with ⟨hc, hbytes⟩ | ⟨hc, hbytes⟩
    · rw [hbytes, List.singleton_append, List.head?_cons, Option.some_inj, Option.some_inj, toUInt8_inj hc hd]
    · obtain ⟨b, bs, hcons⟩ := List.exists_cons_of_ne_nil (String.utf8EncodeChar_ne_nil (c := c))
      have hb := hbytes b (by rw [hcons]; exact List.mem_cons_self)
      rw [hcons, List.cons_append, List.head?_cons, Option.some_inj, Option.some_inj]
      constructor
      · rintro rfl
        rw [toNat_toUInt8 hd] at hb
        omega
      · rintro rfl
        omega

end Text

/-- The byte ranges of a piece (`scanner::Piece`). -/
inductive Piece.Extent where
  | text (range : Nat × Nat)
  | block (outer inner : Nat × Nat)
deriving DecidableEq, Repr

def Piece.extent (p : Piece) : Extent :=
  match p with
  | .text .. => .text (p.start, p.stop)
  | .block .. => .block (p.start, p.stop) p.innerRange

namespace ByteScan

open Piece (Extent)

/-! ## The scanner -/

/-- How many bytes stand before the first two opening braces. -/
def opening? : List UInt8 → Option Nat
  | b :: c :: bs =>
    if b = '\x7b'.toUInt8 ∧ c = '\x7b'.toUInt8 then some 0 else (opening? (c :: bs)).map (· + 1)
  | _ => none

/-- How many bytes stand before the first two closing braces outside of a string literal (`Scanner::find_close`). In a
string literal a backslash passes over the byte behind it. -/
def closing? (inString : Bool) : List UInt8 → Option Nat
  | b :: c :: bs =>
    if inString ∧ b = '\\'.toUInt8 then (closing? true bs).map (· + 2)
    else if b = '"'.toUInt8 then (closing? (!inString) (c :: bs)).map (· + 1)
    else if !inString ∧ b = '\x7d'.toUInt8 ∧ c = '\x7d'.toUInt8 then some 0
    else (closing? inString (c :: bs)).map (· + 1)
  | _ => none

/-- The piece at byte `position`, and where the next one starts (`Scanner::next`). -/
def next? (bytes : List UInt8) (position : Nat) : Option (Extent × Nat) :=
  if bytes.length ≤ position then none
  else
    match opening? (bytes.drop position) with
    | none => some (.text (position, bytes.length), bytes.length)
    | some found =>
      match closing? false (bytes.drop (position + found + 2)) with
      | none => some (.text (position, bytes.length), bytes.length)
      | some n =>
        -- text before a block comes first; the block is looked for once more in the next step
        if 0 < found then some (.text (position, position + found), position + found)
        else some (.block (position, position + 2 + n + 2) (position + 2, position + 2 + n), position + 2 + n + 2)

theorem lt_of_next? {bytes : List UInt8} {position stop : Nat} {extent : Extent}
    (h : next? bytes position = some (extent, stop)) : position < bytes.length ∧ position < stop := by
  unfold next? at h
  split at h
  · cases h
  · rename_i hlt
    rw [Nat.not_le] at hlt
    refine ⟨hlt, ?_⟩
    split at h
    · cases h
      exact hlt
    · split at h
      · cases h
        exact hlt
      · split at h <;> cases h <;> omega

/-- The pieces from byte `position` on. -/
def scan (bytes : List UInt8) (position : Nat) : List Extent :=
  match _h : next? bytes position with
  | none => []
  | some (extent, stop) => extent :: scan bytes stop
termination_by bytes.length - position
decreasing_by
  have := lt_of_next? _h
  omega

theorem scan_of_none {bytes : List UInt8} {position : Nat} (h : next? bytes position = none) :
    scan bytes position = [] := by
  rw [scan]
  split
  · rfl
  · rename_i heq
    rw [h] at heq
    cases heq

theorem scan_of_some {bytes : List UInt8} {position stop : Nat} {extent : Extent}
    (h : next? bytes position = some (extent, stop)) : scan bytes position = extent :: scan bytes stop := by
  rw [scan]
  split
  · rename_i heq
    rw [h] at heq
    cases heq
  · rename_i heq
    rw [h] at heq
    cases heq
    rfl

/-! ## Passing over bytes -/

section
variable {inString : Bool} {b : UInt8} {bs : List UInt8}

theorem opening?_pass (h : ¬ (b = '\x7b'.toUInt8 ∧ bs.head? = some '\x7b'.toUInt8)) :
    opening? (b :: bs) = (opening? bs).map (· + 1) := by
  cases bs with
  | nil => rfl
  | cons c bs => exact if_neg (by simpa using h)

theorem closing?_quote : closing? inString ('"'.toUInt8 :: bs) = (closing? (!inString) bs).map (· + 1) := by
  cases bs with
  | nil => rfl
  | cons c bs =>
    rw [closing?, if_neg (by decide +revert), if_pos rfl]

theorem closing?_pass (hescape : ¬ (inString ∧ b = '\\'.toUInt8)) (hquote : b ≠ '"'.toUInt8)
    (hclose : ¬ (!inString ∧ b = '\x7d'.toUInt8 ∧ bs.head? = some '\x7d'.toUInt8)) :
    closing? inString (b :: bs) = (closing? inString bs).map (· + 1) := by
  cases bs with
  | nil => rfl
  | cons c bs =>
    rw [closing?, if_neg hescape, if_neg hquote, if_neg (by simpa using hclose)]

theorem ne_toUInt8 {d : Char} (hb : 128 ≤ b.toNat) (hd : d.toNat < 128) : b ≠ d.toUInt8 := by
  rintro rfl
  rw [Text.toNat_toUInt8 hd] at hb
  omega

/-- Bytes from 128 on are passed over. -/
theorem opening?_high {high : List UInt8} (h : ∀ b ∈ high, 128 ≤ b.toNat) :
    opening? (high ++ bs) = (opening? bs).map (· + high.length) := by
  induction high with
  | nil => simp
  | cons b high ih =>
    have hb := h b List.mem_cons_self
    rw [List.cons_append, opening?_pass fun hbrace => ne_toUInt8 hb (by decide) hbrace.1,
      ih fun b hb => h b (List.mem_cons_of_mem _ hb), Option.map_map]
    rfl

theorem closing?_high {high : List UInt8} (h : ∀ b ∈ high, 128 ≤ b.toNat) :
    closing? inString (high ++ bs) = (closing? inString bs).map (· + high.length) := by
  induction high with
  | nil => simp
  | cons b high ih =>
    have hb := h b List.mem_cons_self
    rw [List.cons_append, closing?_pass (fun hescape => ne_toUInt8 hb (by decide) hescape.2) (ne_toUInt8 hb (by decide))
      (fun hclose => ne_toUInt8 hb (by decide) hclose.2.1), ih fun b hb => h b (List.mem_cons_of_mem _ hb),
      Option.map_map]
    rfl

end

/-! ## Braces are found where they stand -/

open Text (bytes bytes_cons byteLength utf8EncodeChar_cases toUInt8_inj head?_bytes_eq_some_iff)
open Piece (breakAtOpening breakAtClosing?)

/-- A character that opens nothing is passed over. -/
theorem opening?_bytes_cons {c : Char} {cs : List Char} (h : ¬ Piece.openBraces.isPrefixOf (c :: cs)) :
    opening? (bytes (c :: cs)) = (opening? (bytes cs)).map (· + c.utf8Size) := by
  rw [bytes_cons]
  rcases utf8EncodeChar_cases c with ⟨hc, hbytes⟩ | ⟨hc, hbytes⟩
  · have hsize : c.utf8Size = 1 := by rw [← String.length_utf8EncodeChar, hbytes]; rfl
    rw [hbytes, List.singleton_append, hsize]
    refine opening?_pass ?_
    rw [toUInt8_inj hc (by decide), head?_bytes_eq_some_iff (by decide)]
    rintro ⟨rfl, hhead⟩
    obtain ⟨ds, rfl⟩ := List.head?_eq_some_iff.1 hhead
    exact h rfl
  · rw [opening?_high hbytes, String.length_utf8EncodeChar]

theorem opening?_bytes (cs : List Char) : opening? (bytes cs) =
    if (breakAtOpening cs).2 = [] then none else some (byteLength (breakAtOpening cs).1) := by
  fun_induction breakAtOpening cs with
  | case1 => rfl
  | case2 c cs h =>
    obtain ⟨rest, hrest⟩ := List.isPrefixOf_iff_prefix.1 h
    rw [← hrest]
    rfl
  | case3 c cs h before rest hbreak ih =>
    rw [opening?_bytes_cons h, ih, hbreak]
    split
    · rfl
    · simp [Nat.add_comm]

/-- A character that is no quote, hides none and closes nothing is passed over. -/
theorem closing?_bytes_cons {inString : Bool} {c : Char} {cs : List Char} (hquote : c ≠ '"')
    (hescape : ¬ (inString ∧ c = '\\')) (hclose : ¬ (!inString ∧ c = '\x7d' ∧ cs.head? = some '\x7d')) :
    closing? inString (bytes (c :: cs)) = (closing? inString (bytes cs)).map (· + c.utf8Size) := by
  rw [bytes_cons]
  rcases utf8EncodeChar_cases c with ⟨hc, hbytes⟩ | ⟨hc, hbytes⟩
  · have hsize : c.utf8Size = 1 := by rw [← String.length_utf8EncodeChar, hbytes]; rfl
    rw [hbytes, List.singleton_append, hsize]
    refine closing?_pass ?_ ?_ ?_
    · rwa [toUInt8_inj hc (by decide)]
    · rwa [Ne, toUInt8_inj hc (by decide)]
    · rwa [toUInt8_inj hc (by decide), head?_bytes_eq_some_iff (by decide)]
  · rw [closing?_high hbytes, String.length_utf8EncodeChar]

/-- Behind a backslash, the first byte of a character is passed over with it and the others one by one. -/
theorem closing?_bytes_hidden (d : Char) (cs : List Char) :
    closing? true (bytes ('\\' :: d :: cs)) = (closing? true (bytes cs)).map (· + (1 + d.utf8Size)) := by
  have hskip (b : UInt8) (bs : List UInt8) :
      closing? true ('\\'.toUInt8 :: b :: bs) = (closing? true bs).map (· + 2) := if_pos ⟨rfl, rfl⟩
  rw [bytes_cons, bytes_cons, show String.utf8EncodeChar '\\' = ['\\'.toUInt8] from rfl, List.singleton_append]
  rcases utf8EncodeChar_cases d with ⟨hd, hbytes⟩ | ⟨hd, hbytes⟩
  · rw [← String.length_utf8EncodeChar, hbytes, List.singleton_append, hskip]
    rfl
  · rw [← String.length_utf8EncodeChar]
    obtain ⟨b, bs, hcons⟩ := List.exists_cons_of_ne_nil (String.utf8EncodeChar_ne_nil (c := d))
    rw [hcons] at hbytes ⊢
    rw [List.cons_append, hskip, closing?_high fun b hb => hbytes b (List.mem_cons_of_mem _ hb), Option.map_map,
      List.length_cons]
    congr 1
    funext n
    simp only [Function.comp]
    omega

theorem closing?_bytes (inString : Bool) (cs : List Char) :
    closing? inString (bytes cs) = (breakAtClosing? inString cs).map fun p => byteLength p.1 := by
  fun_induction breakAtClosing? inString cs with
  | case1 => rfl
  | case2 inString cs ih =>
    rw [bytes_cons, show String.utf8EncodeChar '"' = ['"'.toUInt8] from rfl, List.singleton_append, closing?_quote, ih,
      Option.map_map, Option.map_map]
    congr 1
    funext p
    exact Nat.add_comm _ _
  | case3 inString c d cs hquote hescape ih =>
    simp only [Bool.and_eq_true, decide_eq_true_eq] at hescape
    obtain ⟨rfl, rfl⟩ := hescape
    rw [closing?_bytes_hidden, ih, Option.map_map, Option.map_map]
    congr 1
    funext p
    simp only [Function.comp, Text.byteLength_cons, show ('\\').utf8Size = 1 from rfl]
    omega
  | case4 inString c d cs hquote hescape hclose =>
    simp only [Bool.and_eq_true, Bool.not_eq_true', decide_eq_true_eq] at hclose
    obtain ⟨⟨rfl, rfl⟩, rfl⟩ := hclose
    rfl
  | case5 inString c d cs hquote hescape hclose ih =>
    rw [closing?_bytes_cons hquote (by simpa using hescape) (by simpa [and_assoc] using hclose), ih, Option.map_map,
      Option.map_map]
    congr 1
    funext p
    exact Nat.add_comm _ _
  | case6 inString c hquote =>
    rw [bytes_cons]
    rcases utf8EncodeChar_cases c with ⟨-, hbytes⟩ | ⟨-, hbytes⟩
    · rw [hbytes]
      rfl
    · rw [closing?_high hbytes]
      rfl

/-! ## Pieces are found where they lie -/

open Piece (openBraces closeBraces Opens Blockless Stretch Layout textAt)

theorem next?_end (cs : List Char) : next? (bytes cs) (byteLength cs) = none :=
  if_pos (Nat.le_of_eq (Text.length_bytes cs))

section
variable (pre : List Char) {before body : List Char}

/-- What is looked for behind a text. -/
theorem opening?_drop (h : ¬ Opens (before ++ ['\x7b'])) :
    opening? ((bytes (pre ++ (before ++ (openBraces ++ body)))).drop (byteLength pre)) = some (byteLength before) := by
  rw [Text.drop_bytes_append, opening?_bytes, Piece.breakAtOpening_openBraces h]
  rfl

theorem closing?_drop : closing? false ((bytes (pre ++ (before ++ (openBraces ++ body)))).drop
    (byteLength pre + byteLength before + 2)) = (breakAtClosing? false body).map fun p => byteLength p.1 := by
  have hlength : byteLength pre + byteLength before + 2 = byteLength (pre ++ (before ++ openBraces)) := by
    rw [Text.byteLength_append, Text.byteLength_append, Nat.add_assoc]
    rfl
  have hsource : pre ++ (before ++ (openBraces ++ body)) = (pre ++ (before ++ openBraces)) ++ body := by
    simp only [List.append_assoc]
  rw [hlength, hsource, Text.drop_bytes_append, closing?_bytes]

end

/-- A tail without a block is one text. -/
theorem next?_tail (pre : List Char) {tail : List Char} (h : Blockless tail) (hne : tail ≠ []) :
    next? (bytes (pre ++ tail)) (byteLength pre) =
      some (.text (byteLength pre, byteLength (pre ++ tail)), byteLength (pre ++ tail)) := by
  have hlt : ¬ (bytes (pre ++ tail)).length ≤ byteLength pre := by
    have := Nat.pos_of_ne_zero (mt Text.byteLength_eq_zero hne)
    rw [Text.length_bytes, Text.byteLength_append]
    omega
  rw [next?, if_neg hlt]
  by_cases hopens : Opens tail
  · obtain ⟨before, body, rfl, hbefore⟩ := Piece.exists_opening hopens
    simp only [opening?_drop pre hbefore, closing?_drop, h before body rfl hbefore, Option.map_none, Text.length_bytes]
  · simp only [Text.drop_bytes_append, opening?_bytes, Piece.breakAtOpening_of_not_opens hopens, if_true,
      Text.length_bytes]

theorem stop_block (start : Nat) (inner : List Char) :
    (Piece.block start inner).stop = start + 2 + byteLength inner + 2 := by
  rw [Piece.stop, Piece.source, Text.byteLength_append, Text.byteLength_append]
  show start + (2 + byteLength inner + 2) = _
  omega

section
variable (pre : List Char) {before inner : List Char} (hencloses : Piece.Encloses inner) (rest : List Char)

include hencloses

/-- A block that starts right here. -/
theorem next?_block : next? (bytes (pre ++ (openBraces ++ (inner ++ (closeBraces ++ rest))))) (byteLength pre) =
    some ((Piece.block (byteLength pre) inner).extent, (Piece.block (byteLength pre) inner).stop) := by
  have hlt : ¬ (bytes (pre ++ (openBraces ++ (inner ++ (closeBraces ++ rest))))).length ≤ byteLength pre := by
    rw [Text.length_bytes, Text.byteLength_append, Text.byteLength_append, show byteLength openBraces = 2 from rfl]
    omega
  have hopening := @opening?_drop pre [] (inner ++ (closeBraces ++ rest)) (by decide)
  have hclosing := @closing?_drop pre [] (inner ++ (closeBraces ++ rest))
  rw [List.nil_append] at hopening hclosing
  rw [next?, if_neg hlt]
  simp only [hopening, hclosing, hencloses.breakAtClosing?, Option.map_some, Piece.extent, stop_block]
  rfl

/-- Text before a block ends where the block starts. -/
theorem next?_before (hopens : ¬ Opens (before ++ ['\x7b'])) (hne : before ≠ []) :
    next? (bytes (pre ++ (before ++ (openBraces ++ (inner ++ (closeBraces ++ rest)))))) (byteLength pre) =
      some ((Piece.text (byteLength pre) before).extent, (Piece.text (byteLength pre) before).stop) := by
  have hpos : 0 < byteLength before := Nat.pos_of_ne_zero (mt Text.byteLength_eq_zero hne)
  have hlt :
      ¬ (bytes (pre ++ (before ++ (openBraces ++ (inner ++ (closeBraces ++ rest)))))).length ≤ byteLength pre := by
    rw [Text.length_bytes, Text.byteLength_append, Text.byteLength_append]
    omega
  rw [next?, if_neg hlt]
  simp only [opening?_drop pre hopens, closing?_drop, hencloses.breakAtClosing?, Option.map_some, if_pos hpos]
  rfl

end

/-! ## The scan of a layout -/

theorem scan_tail (pre : List Char) {tail : List Char} (h : Blockless tail) :
    scan (bytes (pre ++ tail)) (byteLength pre) = (textAt (byteLength pre) tail).map Piece.extent := by
  cases tail with
  | nil =>
    rw [List.append_nil]
    exact scan_of_none (next?_end pre)
  | cons c cs =>
    rw [scan_of_some (next?_tail pre h (List.cons_ne_nil c cs)), scan_of_none (next?_end _), Text.byteLength_append]
    rfl

theorem scan_stretch (pre : List Char) (s : Stretch) (rest : List Char) :
    scan (bytes (pre ++ (s.source ++ rest))) (byteLength pre) = (s.pieces (byteLength pre)).map Piece.extent ++
      scan (bytes (pre ++ (s.source ++ rest))) (byteLength pre + byteLength s.source) := by
  have hstop : byteLength pre + byteLength s.source =
      (Piece.block (byteLength pre + byteLength s.before) s.inner).stop := by
    rw [stop_block, s.byteLength_source]
    omega
  -- the block is found behind the text as it would be without it
  have hblock : scan (bytes (pre ++ (s.source ++ rest))) (byteLength pre + byteLength s.before) =
      (Piece.block (byteLength pre + byteLength s.before) s.inner).extent ::
        scan (bytes (pre ++ (s.source ++ rest))) (byteLength pre + byteLength s.source) := by
    have hnext := next?_block (pre ++ s.before) s.encloses rest
    rw [List.append_assoc, ← s.source_append, Text.byteLength_append] at hnext
    rw [scan_of_some hnext, hstop]
  rw [Stretch.pieces, List.map_append, List.append_assoc, List.map_singleton, List.singleton_append, ← hblock]
  cases hbefore : s.before with
  | nil => rfl
  | cons c cs =>
    have hnext := next?_before pre s.encloses rest s.opens (by rw [hbefore]; exact List.cons_ne_nil c cs)
    rw [← s.source_append] at hnext
    rw [scan_of_some hnext, hbefore]
    rfl

theorem scan_layout (pre : List Char) {tail : List Char} (h : Blockless tail) (stretches : List Stretch) :
    scan (bytes (pre ++ (stretches.flatMap Stretch.source ++ tail))) (byteLength pre) =
      (Layout.piecesFrom (byteLength pre) tail stretches).map Piece.extent := by
  induction stretches generalizing pre with
  | nil => exact scan_tail pre h
  | cons s stretches ih =>
    have hrest := ih (pre ++ s.source)
    rw [List.append_assoc, Text.byteLength_append] at hrest
    rw [List.flatMap_cons, List.append_assoc, scan_stretch, hrest, Layout.piecesFrom, List.map_append]

/-- **A scan of the bytes finds the ranges of the pieces.** -/
theorem scan_bytes (source : List Char) : scan (bytes source) 0 = (Piece.split source).map Piece.extent := by
  obtain ⟨l, rfl⟩ := Piece.exists_layout source
  rw [l.split_source]
  exact scan_layout [] l.blockless l.stretches

/-- A backslash before a character of two bytes, of which it hides the first. -/
example : scan (bytes "\x7b\x7b\"\\é\x7d\x7d\"\x7d\x7d!".toList) 0 =
    [.block (0, 11) (2, 9), .text (11, 12)] := by
  cbv

end ByteScan

end PropertyExpr
