import PropertyExpr.Text.Bytes
/-!
# The pieces of a template: `template::scanner`

A template is cut into text and blocks. A block goes from two opening braces to the first two closing braces
outside a string literal; if there are none, everything from the opening braces on is text. Pieces carry their
characters, so together they spell the template (`flatMap_source_split`), and their ranges follow from where
they start.
-/
namespace PropertyExpr

inductive Piece where
  /-- Text that starts at byte `start`; never empty. -/
  | text (start : Nat) (content : List Char)
  /-- A block that starts at byte `start`, with `inner` between its braces. -/
  | block (start : Nat) (inner : List Char)
deriving DecidableEq, Repr

namespace Piece

def openBraces : List Char := ['\x7b', '\x7b']

def closeBraces : List Char := ['\x7d', '\x7d']

/-- The characters of a piece, braces included. -/
def source : Piece → List Char
  | text _ content => content
  | block _ inner => openBraces ++ inner ++ closeBraces

def start : Piece → Nat
  | text start _ | block start _ => start

/-- Where a piece ends. -/
def stop (p : Piece) : Nat := p.start + Text.byteLength p.source

/-- The range between the braces of a block; of a text, all of it. -/
def innerRange : Piece → Nat × Nat
  | text start content => (start, start + Text.byteLength content)
  | block start inner => (start + 2, start + 2 + Text.byteLength inner)

/-- Cuts before the first two opening braces. -/
def breakAtOpening : List Char → List Char × List Char
  | [] => ([], [])
  | c :: cs =>
    if openBraces.isPrefixOf (c :: cs) then ([], c :: cs)
    else
      let (before, rest) := breakAtOpening cs
      (c :: before, rest)

/-- What stands before the first two closing braces outside a string literal, and what stands behind them
(`Scanner::find_close`). In a string, a backslash hides the character behind it. -/
def breakAtClosing? (inString : Bool) : List Char → Option (List Char × List Char)
  | [] => none
  | '"' :: cs => (breakAtClosing? (!inString) cs).map fun (inner, rest) => ('"' :: inner, rest)
  | c :: d :: cs =>
    if inString && c = '\\' then
      (breakAtClosing? true cs).map fun (inner, rest) => (c :: d :: inner, rest)
    else if !inString && c = '\x7d' && d = '\x7d' then some ([], cs)
    else (breakAtClosing? inString (d :: cs)).map fun (inner, rest) => (c :: inner, rest)
  | [_] => none

theorem breakAtOpening_append (cs : List Char) : (breakAtOpening cs).1 ++ (breakAtOpening cs).2 = cs := by
  fun_induction breakAtOpening cs <;> simp_all

theorem eq_of_breakAtClosing? {inString : Bool} {cs inner rest : List Char}
    (h : breakAtClosing? inString cs = some (inner, rest)) : cs = inner ++ closeBraces ++ rest := by
  fun_induction breakAtClosing? inString cs generalizing inner rest <;>
    simp_all [closeBraces, Option.map_eq_some_iff] <;> grind

/-- A text piece, unless it would be empty. -/
def textAt (start : Nat) : List Char → List Piece
  | [] => []
  | content => [text start content]

/-- The pieces of `cs`, which starts at byte `start` (`Scanner::next`). -/
def splitAt (start : Nat) (cs : List Char) : List Piece :=
  let before := (breakAtOpening cs).1
  match _h : (breakAtOpening cs).2 with
  | _ :: _ :: body =>
    match _hc : breakAtClosing? false body with
    | some (inner, rest) =>
      let opening := start + Text.byteLength before
      textAt start before ++ block opening inner ::
        splitAt (opening + 4 + Text.byteLength inner) rest
    | none => textAt start cs
  | _ => textAt start cs
termination_by cs.length
decreasing_by
  have h1 := congrArg List.length (breakAtOpening_append cs)
  have h2 := congrArg List.length (eq_of_breakAtClosing? _hc)
  simp only [_h, List.length_append, List.length_cons, closeBraces, List.length_nil] at h1 h2
  omega

/-- The pieces of a template (`Scanner::new`). -/
def split (source : List Char) : List Piece := splitAt 0 source

end Piece

end PropertyExpr
