import PropertyExpr.Yaml.Input
/-!
# Scalars in YAML text

The three ways to write a scalar: between quotes, plain, and as a block of lines. Over several lines, a single
line break reads as a space and further ones as themselves; only a literal block keeps all. The loops are
bounded by `room`, the number of characters, of which each round takes one.
-/
namespace PropertyExpr.Yaml

/-! ## Between words -/

/-- What stands between two words. -/
inductive Gap where
  /-- Blanks within a line. -/
  | blanks (text : List Char)
  /-- A line break, and those of the empty lines behind it. -/
  | breaks (first others : List Char)

namespace Gap

def isBroken : Gap → Bool
  | blanks _ => false
  | breaks .. => true

/-- What a gap reads as. -/
def text : Gap → List Char
  | blanks text => text
  | breaks first others =>
    if first = ['\n'] then if others = [] then [' '] else others
    else first ++ others

/-- The breaks of empty lines, and the input behind the blanks of the line after them. A tab that stands in the
indentation, before column `indent`, is a fault. -/
def others? (indent : Nat) : (room : Nat) → Input → Option (List Char × Input)
  | 0, i => some ([], i)
  | room + 1, i =>
    let (skipped, i') := i.takeWhile isBlank
    if (skipped.take (indent - i.column)).contains '\t' then none
    else if i'.at? isBreak then
      let (breakText, i) := i'.readBreak
      (others? indent room i).map fun (others, i) => (breakText ++ others, i)
    else some ([], i')

/-- Reads a gap of which the first break has been read. -/
def behind? (indent : Nat) (first : List Char) (i : Input) : Option (Gap × Input) :=
  (others? indent i.room i).map fun (others, i) => (breaks first others, i)

/-- Reads a gap. -/
def read? (indent : Nat) (i : Input) : Option (Gap × Input) :=
  let (text, i) := i.takeWhile isBlank
  if i.at? isBreak then
    let (first, i) := i.readBreak
    behind? indent first i
  else some (blanks text, i)

end Gap

/-! ## Quoted scalars -/

/-- The value of hexadecimal digits. -/
def hexValue? (cs : List Char) : Option Nat :=
  cs.foldlM (fun n c =>
    if c.isDigit then some (16 * n + (c.toNat - '0'.toNat))
    else if 'a' ≤ c ∧ c ≤ 'f' then some (16 * n + (c.toNat - 'a'.toNat + 10))
    else if 'A' ≤ c ∧ c ≤ 'F' then some (16 * n + (c.toNat - 'A'.toNat + 10))
    else none) 0

/-- The character with a code point, which must be one. -/
def character? (n : Nat) : Option Char :=
  if (0xD800 ≤ n ∧ n ≤ 0xDFFF) ∨ 0x10FFFF < n then none else some (Char.ofNat n)

/-- What a backslash and `c` stand for. -/
def escaped? : Char → Option Char
  | '0' => some '\x00'
  | 'a' => some '\x07'
  | 'b' => some '\x08'
  | 't' => some '\t'
  | '\t' => some '\t'
  | 'n' => some '\n'
  | 'v' => some '\x0b'
  | 'f' => some '\x0c'
  | 'r' => some '\r'
  | 'e' => some '\x1b'
  | ' ' => some ' '
  | '"' => some '"'
  | '/' => some '/'
  | '\\' => some '\\'
  | 'N' => some '\x85'
  | '_' => some '\xa0'
  | 'L' => some '\u2028'
  | 'P' => some '\u2029'
  | _ => none

/-- How many hexadecimal digits follow a backslash and `c`. -/
def codeLength? : Char → Option Nat
  | 'x' => some 2
  | 'u' => some 4
  | 'U' => some 8
  | _ => none

/-- The characters of a quoted scalar up to a blank, a break, the closing quote or the end; and whether a
backslash hid a break, which is then passed. -/
def quotedWord? (single : Bool) : (room : Nat) → Input → Option (List Char × Bool × Input)
  | 0, i => some ([], false, i)
  | room + 1, i =>
    let continue? (c : Char) (n : Nat) :=
      (quotedWord? single room (i.skip n)).map fun (word, hidden, i) => (c :: word, hidden, i)
    match i.rest with
    | [] => some ([], false, i)
    | c :: cs =>
      if isBlank c || isBreak c then some ([], false, i)
      else if single then
        if c = '\'' then if cs.head? = some '\'' then continue? '\'' 2 else some ([], false, i)
        else continue? c 1
      else if c = '"' then some ([], false, i)
      else if c = '\\' then
        match cs with
        | [] => none
        | e :: cs =>
          if isBreak e then some ([], true, (i.skip 1).skipBreak)
          else match escaped? e with
            | some c => continue? c 2
            | none => do
              let n ← codeLength? e
              let digits := cs.take n
              if digits.length = n then continue? (← character? (← hexValue? digits)) (2 + n) else none
      else continue? c 1

/-- A quoted scalar behind its opening quote. -/
def quoted? (single : Bool) : (room : Nat) → Input → Option (List Char × Input)
  | 0, _ => none
  | room + 1, i =>
    if i.isDocumentMarker || i.rest.isEmpty then none
    else do
      let (word, hidden, i) ← quotedWord? single i.room i
      if i.starts (if single then '\'' else '"') then return (word, i.skip 1)
      else
        let (gap, i) ← if hidden then Gap.behind? 0 [] i else Gap.read? 0 i
        let (rest, i) ← quoted? single room i
        return (word ++ gap.text ++ rest, i)

/-! ## Plain scalars -/

def isFlowIndicator (c : Char) : Bool := c = ',' || c = '[' || c = ']' || c = '\x7b' || c = '\x7d'

/-- The characters of a plain scalar up to a blank, a break, what ends the scalar or the end. In a flow
collection, a colon may not stand before an indicator. -/
def plainWord? (flow : Bool) : List Char → Option (List Char)
  | [] => some []
  | c :: cs =>
    let next := cs.head?
    if isBlank c || isBreak c then some []
    else if flow && c = ':' && next.any (fun d => isFlowIndicator d || d = '?') then none
    else if c = ':' && next.all (fun d => isBlank d || isBreak d) then some []
    else if flow && isFlowIndicator c then some []
    else (plainWord? flow cs).map (c :: ·)

/-- A plain scalar: its text, whether a break follows it, and the input behind that. Outside flow collections
its lines stand at column `indent` or further right. -/
def plain? (flow : Bool) (indent : Nat) : (room : Nat) → (before : Gap) → Input →
    Option (List Char × Bool × Input)
  | 0, before, i => some ([], before.isBroken, i)
  | room + 1, before, i =>
    if i.isDocumentMarker || i.starts '#' then some ([], before.isBroken, i)
    else do
      let word ← plainWord? flow i.rest
      if word.isEmpty then return ([], before.isBroken, i)
      let i := i.skip word.length
      let (gap, i') ← Gap.read? indent i
      if i'.index = i.index then return (before.text ++ word, false, i)
      if !flow && i'.column < indent then return (before.text ++ word, gap.isBroken, i')
      let (rest, broken, i') ← plain? flow indent room gap i'
      return (before.text ++ word ++ rest, broken, i')

/-! ## Block scalars -/

/-- What to do with the line breaks at the end of a block. -/
inductive Chomping where
  | strip | clip | keep
deriving DecidableEq

/-- The chomping and the indentation that the header of a block states, in either order. -/
def blockHeader? (i : Input) : Option (Chomping × Option Nat × Input) :=
  let chomping? (i : Input) : Option Chomping × Input :=
    if i.starts '+' then (some .keep, i.skip 1)
    else if i.starts '-' then (some .strip, i.skip 1)
    else (none, i)
  let increment? (i : Input) : Option (Option Nat × Input) :=
    match i.rest.head? with
    | some c =>
      if c = '0' then none
      else if c.isDigit then some (some (c.toNat - '0'.toNat), i.skip 1)
      else some (none, i)
    | none => some (none, i)
  match chomping? i with
  | (some chomping, i) => do
    let (increment, i) ← increment? i
    return (chomping, increment, i)
  | (none, i) => do
    let (increment, i) ← increment? i
    let (chomping, i) := if increment.isSome then chomping? i else (none, i)
    return (chomping.getD .clip, increment, i)

/-- The line breaks of empty lines, and the greatest column that their spaces and those of the next line
reach. With an `indent` given, spaces count as indentation up to it. A tab may not stand in the indentation. -/
def emptyLines? (indent : Option Nat) : (room : Nat) → (widest : Nat) → Input →
    Option (List Char × Nat × Input)
  | 0, widest, i => some ([], widest, i)
  | room + 1, widest, i =>
    let spaces := (i.rest.takeWhile (· = ' ')).length
    let i := i.skip (match indent with
      | some indent => min spaces (indent - i.column)
      | none => spaces)
    let widest := max widest i.column
    if indent.all (i.column < ·) && i.starts '\t' then none
    else if i.at? isBreak then
      let (breakText, i) := i.readBreak
      (emptyLines? indent room widest i).map fun (breaks, widest, i) => (breakText ++ breaks, widest, i)
    else some ([], widest, i)

/-- The lines of a block: `ending` is the break of the line before, `breaks` those of empty lines since, and
`blankBefore` says whether the line before starts with a blank. -/
def blockLines? (literal : Bool) (indent : Nat) : (room : Nat) → (ending breaks : List Char) →
    (blankBefore : Bool) → Input → Option (List Char × List Char × List Char × Input)
  | 0, ending, breaks, _, i => some ([], ending, breaks, i)
  | room + 1, ending, breaks, blankBefore, i =>
    if i.column = indent && !i.rest.isEmpty then do
      let blank := i.at? isBlank
      let joint :=
        if !literal && ending = ['\n'] && !blankBefore && !blank then
          if breaks = [] then [' '] else []
        else ending
      let (line, i) := i.takeWhile (!isBreak ·)
      let (ending, i) := i.readBreak
      let (breaks', _, i) ← emptyLines? (some indent) (i.room + 1) 0 i
      let (text, rest) ← blockLines? literal indent room ending breaks' blank i
      return (joint ++ breaks ++ line ++ text, rest)
    else some ([], ending, breaks, i)

/-- A block scalar behind its indicator, `outer` being the indentation around it. -/
def block? (literal : Bool) (outer : Int) (i : Input) : Option (List Char × Input) := do
  let (chomping, increment, i) ← blockHeader? i
  let i ← i.skipLineEnd?
  let stated := increment.map fun n => if 0 ≤ outer then outer.toNat + n else n
  let (breaks, widest, i) ← emptyLines? stated (i.room + 1) 0 i
  let indent := stated.getD (max widest (max (outer + 1).toNat 1))
  let (text, ending, breaks, i) ← blockLines? literal indent (i.room + 1) [] breaks false i
  return (match chomping with
    | .strip => (text, i)
    | .clip => (text ++ ending, i)
    | .keep => (text ++ ending ++ breaks, i))

end PropertyExpr.Yaml
