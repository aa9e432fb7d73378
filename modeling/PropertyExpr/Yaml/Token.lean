import PropertyExpr.Yaml.Scalar
import PropertyExpr.Yaml.Tag
/-!
# Tokens of YAML text

Indentation becomes tokens: collections in block style start and end with one, and a key that is told by the
colon behind it gets its token in front afterwards. `Layout` keeps what that takes: the columns of the open
block collections, and for each open flow collection whether a key may have started there and at which token.
-/
namespace PropertyExpr.Yaml

inductive Token where
  | versionDirective (major minor : Nat)
  | tagDirective (handle : String) (pre : Tag)
  | documentStart
  | documentEnd
  | streamEnd
  | blockSequenceStart
  | blockMappingStart
  | blockEnd
  | flowSequenceStart
  | flowSequenceEnd
  | flowMappingStart
  | flowMappingEnd
  | blockEntry
  | flowEntry
  | key
  | value
  | aliasOf (name : String)
  | anchor (name : String)
  | tag (handle : String) (suffix : Tag)
  /-- A scalar, and whether it is written plain. -/
  | scalar (text : String) (plain : Bool)
deriving DecidableEq, Repr

namespace Token

/-! ## Names, tags and directives -/

/-- The name behind `*` or `&`. -/
def name? (i : Input) : Option (String × Input) :=
  let (name, i) := (i.skip 1).takeWhile isWord
  let ends := i.blankOrEnd 0 || i.at? fun c => "?:,]\x7d%@\x60".toList.contains c
  if name.isEmpty || !ends then none else some (String.ofList name, i)

/-- A tag handle: a mark, and word characters with a second mark. Without the second mark it is no handle but
the start of a tag, which a directive cannot name. -/
def tagHandle? (directive : Bool) (i : Input) : Option (List Char × Input) :=
  if i.starts '!' then
    let (word, i) := (i.skip 1).takeWhile isWord
    if i.starts '!' then some ('!' :: word ++ ['!'], i.skip 1)
    else if directive && !word.isEmpty then none
    else some ('!' :: word, i)
  else none

/-- How many bytes a character takes of which `first` is the first, if there is one. -/
def characterWidth? (first : Nat) : Option Nat :=
  if first < 0x80 then some 1
  else if first / 0x20 = 6 then some 2
  else if first / 0x10 = 14 then some 3
  else if first / 8 = 30 then some 4
  else none

/-- A byte written as `%XX`. -/
def uriByte? (i : Input) : Option (Nat × Input) :=
  match i.rest with
  | '%' :: a :: b :: _ => (hexValue? [a, b]).map (·, i.skip 3)
  | _ => none

/-- `n` bytes written as `%XX` that continue a character. -/
def uriContinuation? : (n : Nat) → Input → Option (List UInt8 × Input)
  | 0, i => some ([], i)
  | n + 1, i => do
    let (byte, i) ← uriByte? i
    if byte / 0x40 ≠ 2 then none
    else
      let (bytes, i) ← uriContinuation? n i
      return (byte.toUInt8 :: bytes, i)

/-- Bytes written as `%XX` that have the shape of one character; whether there is such a character is not
asked. -/
def uriCharacter? (i : Input) : Option (List UInt8 × Input) := do
  let (first, i) ← uriByte? i
  let width ← characterWidth? first
  let (bytes, i) ← uriContinuation? (width - 1) i
  return (first.toUInt8 :: bytes, i)

/-- The bytes of a tag, of which `room` bounds the number. A tag between angle brackets, or behind a directive,
may hold some flow indicators. -/
def uri? (verbatim : Bool) : (room : Nat) → Input → Option (List UInt8 × Input)
  | 0, i => some ([], i)
  | room + 1, i =>
    match i.rest.head? with
    | none => some ([], i)
    | some c =>
      if c = '%' then do
        let (bytes, i) ← uriCharacter? i
        let (others, i) ← uri? verbatim room i
        return (bytes ++ others, i)
      else if isWord c || ";/?:@&=+$.!~*'()".toList.contains c || (verbatim && ",[]".toList.contains c) then do
        let (bytes, i) ← uri? verbatim room (i.skip 1)
        return (c.toUInt8 :: bytes, i)
      else some ([], i)

/-- A tag: in angle brackets, behind a handle, or behind a single mark, which may stand alone. -/
def tag? (flow : Bool) (i : Input) : Option (Token × Input) := do
  let (token, i) ←
    if i.ahead? 1 = some '<' then do
      let (bytes, i) ← uri? true i.room (i.skip 2)
      if bytes.isEmpty || !i.starts '>' then none else some (tag "" (.ofBytes bytes), i.skip 1)
    else do
      let (handle, i) ← tagHandle? false i
      let (bytes, i) ← uri? false i.room i
      if handle.length ≥ 2 && handle.getLast? = some '!' then
        if bytes.isEmpty then none else some (tag (String.ofList handle) (.ofBytes bytes), i)
      else
        let suffix := Tag.ofBytes ((handle.drop 1).map Char.toUInt8 ++ bytes)
        some (if suffix.bytes.isEmpty then (tag "" (.ofString "!"), i) else (tag "!" suffix, i))
  if i.blankOrEnd 0 || (flow && i.starts ',') then return (token, i) else none

/-- The digits of a version number, at most nine. -/
def versionNumber? (i : Input) : Option (Nat × Input) := do
  let (digits, i) := i.takeWhile Char.isDigit
  if digits.isEmpty || digits.length > 9 then none
  else return (digits.foldl (fun n c => 10 * n + (c.toNat - '0'.toNat)) 0, i)

/-- A directive, which has a line of its own. -/
def directive? (i : Input) : Option (Token × Input) := do
  let (name, i) := (i.skip 1).takeWhile isWord
  if name.isEmpty || !i.blankOrEnd 0 then none
  else
    let i := i.skipWhile isBlank
    let (token, i) ←
      if name = "YAML".toList then do
        let (major, i) ← versionNumber? i
        if !i.starts '.' then none
        else
          let (minor, i) ← versionNumber? (i.skip 1)
          some (versionDirective major minor, i)
      else if name = "TAG".toList then do
        let (handle, i) ← tagHandle? true i
        if !i.at? isBlank then none
        else
          let i := i.skipWhile isBlank
          let (bytes, i) ← uri? true i.room i
          if bytes.isEmpty || !i.blankOrEnd 0 then none
          else some (tagDirective (String.ofList handle) (.ofBytes bytes), i)
      else none
    return (token, ← i.skipLineEnd?)

end Token

/-! ## Layout -/

/-- A place where a key may have started that is told only by the colon behind it. -/
structure KeyCandidate where
  /-- Whether a colon has to follow: the candidate starts a line of a block mapping. -/
  required : Bool
  /-- How many tokens stand before it. -/
  tokens : Nat
  index : Nat
  line : Nat
  column : Nat

structure Layout where
  input : Input
  /-- The tokens read, the latest first. -/
  tokens : List Token
  count : Nat
  /-- The column of the innermost block collection, -1 outside all. -/
  indent : Int
  /-- The columns of those around it. -/
  outer : List Int
  /-- Whether a key may start here. -/
  keyAllowed : Bool
  /-- The candidate of the innermost flow collection, or of the blocks outside all. -/
  candidate : Option KeyCandidate
  /-- The candidates around each open flow collection, the innermost first. -/
  around : List (Option KeyCandidate)

namespace Layout

def start (cs : List Char) : Layout := ⟨.ofText cs, [], 0, -1, [], true, none, []⟩

def inFlow (s : Layout) : Bool := !s.around.isEmpty

def push (s : Layout) (t : Token) : Layout := { s with tokens := t :: s.tokens, count := s.count + 1 }

/-- Reads a token of `n` characters. -/
def pushSkip (s : Layout) (t : Token) (n : Nat) : Layout := { s.push t with input := s.input.skip n }

/-- Puts a token behind the first `n`. -/
def insert (s : Layout) (t : Token) (n : Nat) : Layout :=
  { s with tokens := s.tokens.take (s.count - n) ++ t :: s.tokens.drop (s.count - n), count := s.count + 1 }

/-- Opens a block collection at a column further right, its token behind the first `n`. -/
def openBlock (s : Layout) (column : Nat) (t : Token) (n : Nat) : Layout :=
  if s.inFlow || (column : Int) ≤ s.indent then s
  else { s.insert t n with indent := column, outer := s.indent :: s.outer }

/-- Closes the block collections further right than a column. -/
def closeBlocks (s : Layout) (column : Int) : Layout :=
  if s.inFlow then s else go s.indent s.outer s
where
  go (indent : Int) (outer : List Int) (s : Layout) : Layout :=
    if column < indent then
      match outer with
      | [] => { s.push .blockEnd with indent := -1, outer := [] }
      | o :: os => go o os (s.push .blockEnd)
    else { s with indent, outer }

/-- Gives up the candidate, which must not be a required one. -/
def dropCandidate? (s : Layout) : Option Layout :=
  if s.candidate.any (·.required) then none else some { s with candidate := none }

/-- Makes this place the candidate if a key may start here. -/
def saveCandidate? (s : Layout) : Option Layout :=
  if s.keyAllowed then do
    let s ← s.dropCandidate?
    let i := s.input
    return { s with
      candidate := some ⟨!s.inFlow && s.indent = i.column, s.count, i.index, i.line, i.column⟩ }
  else some s

/-- Whether a candidate is behind in an earlier line or more than 1024 bytes away. -/
def isStale (i : Input) (k : KeyCandidate) : Bool := k.line < i.line || k.index + 1024 < i.index

/-- Gives up the candidate if it is stale. Those around are looked at when their turn comes. -/
def dropStale? (s : Layout) : Option Layout :=
  if s.candidate.any (isStale s.input) then s.dropCandidate? else some s

/-- Passes blanks, comments, line breaks, and a byte order mark at the start of each line. In blocks, tabs are
blanks only where no key may start. -/
def skipToToken : (room : Nat) → Layout → Layout
  | 0, s => s
  | room + 1, s =>
    let i := if s.input.column = 0 && s.input.starts '\ufeff' then s.input.skip 1 else s.input
    let i := i.skipWhile fun c => c = ' ' || ((s.inFlow || !s.keyAllowed) && c = '\t')
    let i := if i.starts '#' then i.skipWhile (!isBreak ·) else i
    if i.at? isBreak then
      skipToToken room { s with input := i.skipBreak, keyAllowed := s.keyAllowed || !s.inFlow }
    else { s with input := i }

/-- Ends the blocks of a document, where no key may start. -/
def endBlocks? (s : Layout) : Option Layout := do
  let s ← (s.closeBlocks (-1)).dropCandidate?
  return { s with keyAllowed := false }

def openFlow? (s : Layout) (t : Token) : Option Layout := do
  let s ← s.saveCandidate?
  return { s with candidate := none, around := s.candidate :: s.around, keyAllowed := true }.pushSkip t 1

def closeFlow? (s : Layout) (t : Token) : Option Layout := do
  let s ← s.dropCandidate?
  let s := match s.around with
    | [] => s
    | k :: around => { s with candidate := k, around }
  return { s with keyAllowed := false }.pushSkip t 1

/-- A hyphen, which in blocks may start a sequence. -/
def blockEntry? (s : Layout) : Option Layout := do
  if !s.inFlow && !s.keyAllowed then none
  else
    let s ← (s.openBlock s.input.column .blockSequenceStart s.count).dropCandidate?
    return { s with keyAllowed := true }.pushSkip .blockEntry 1

/-- A question mark, which in blocks may start a mapping. -/
def key? (s : Layout) : Option Layout := do
  if !s.inFlow && !s.keyAllowed then none
  else
    let s ← (s.openBlock s.input.column .blockMappingStart s.count).dropCandidate?
    return { s with keyAllowed := !s.inFlow }.pushSkip .key 1

/-- A colon. If there is a candidate, that is the key, and in blocks it may start a mapping. -/
def value? (s : Layout) : Option Layout :=
  match s.candidate with
  | some k =>
    let s := (s.insert .key k.tokens).openBlock k.column .blockMappingStart k.tokens
    some ({ s with candidate := none, keyAllowed := false }.pushSkip .value 1)
  | none =>
    if !s.inFlow && !s.keyAllowed then none
    else
      let s := s.openBlock s.input.column .blockMappingStart s.count
      some ({ s with keyAllowed := !s.inFlow }.pushSkip .value 1)

/-- A token that may be or start a key. -/
def keyLike? (s : Layout) (read : Input → Option (Token × Input)) : Option Layout := do
  let s ← s.saveCandidate?
  let (t, i) ← read s.input
  return { s with keyAllowed := false, input := i }.push t

/-- A scalar between quotes. -/
def quoted? (s : Layout) (single : Bool) : Option Layout :=
  s.keyLike? fun i => do
    let (text, i) ← Yaml.quoted? single (i.room + 1) (i.skip 1)
    return (.scalar (String.ofList text) false, i)

def plain? (s : Layout) : Option Layout := do
  let s ← s.saveCandidate?
  let (text, broken, i) ← Yaml.plain? s.inFlow (s.indent + 1).toNat (s.input.room + 1) (.blanks []) s.input
  return { s with keyAllowed := broken, input := i }.push (.scalar (String.ofList text) true)

def block? (s : Layout) (literal : Bool) : Option Layout := do
  let s ← s.dropCandidate?
  let (text, i) ← Yaml.block? literal s.indent (s.input.skip 1)
  return { s with keyAllowed := true, input := i }.push (.scalar (String.ofList text) false)

/-- Whether `c` may start a plain scalar wherever it stands. -/
def startsPlain (c : Char) : Bool := !isBlank c && !isBreak c && !"-?:,[]\x7b\x7d#&*!|>'\"%@\x60".toList.contains c

/-- The end of the text, which closes all blocks. -/
def end? (s : Layout) : Option Layout := do
  let s ← s.endBlocks?
  return s.push .streamEnd

/-- Reads one token and those that layout puts before it. -/
def next? (s : Layout) : Option Layout := do
  let s ← (s.skipToToken (s.input.room + 1)).dropStale?
  let s := s.closeBlocks s.input.column
  let i := s.input
  match i.rest with
  | [] => s.end?
  | c :: _ =>
    if i.column = 0 && c = '%' then do
      let s ← s.endBlocks?
      let (t, i) ← Token.directive? i
      return { s with input := i }.push t
    else if i.isMarker '-' then return (← s.endBlocks?).pushSkip .documentStart 3
    else if i.isMarker '.' then return (← s.endBlocks?).pushSkip .documentEnd 3
    else if c = '[' then s.openFlow? .flowSequenceStart
    else if c = '\x7b' then s.openFlow? .flowMappingStart
    else if c = ']' then s.closeFlow? .flowSequenceEnd
    else if c = '\x7d' then s.closeFlow? .flowMappingEnd
    else if c = ',' then do
      let s ← s.dropCandidate?
      return { s with keyAllowed := true }.pushSkip .flowEntry 1
    else if c = '-' && i.blankOrEnd 1 then s.blockEntry?
    else if c = '?' && (s.inFlow || i.blankOrEnd 1) then s.key?
    else if c = ':' && (s.inFlow || i.blankOrEnd 1) then s.value?
    else if c = '*' then s.keyLike? fun i => (Token.name? i).map fun (name, i) => (.aliasOf name, i)
    else if c = '&' then s.keyLike? fun i => (Token.name? i).map fun (name, i) => (.anchor name, i)
    else if c = '!' then s.keyLike? (Token.tag? s.inFlow)
    else if c = '|' && !s.inFlow then s.block? true
    else if c = '>' && !s.inFlow then s.block? false
    else if c = '\'' then s.quoted? true
    else if c = '"' then s.quoted? false
    else if startsPlain c || (c = '-' && !(i.ahead? 1).any isBlank) ||
        (!s.inFlow && (c = '?' || c = ':') && !i.blankOrEnd 1) then s.plain?
    else none

/-- Reads tokens to the end of the text; each takes a character but the last. -/
def readAll? : (room : Nat) → Layout → Option Layout
  | 0, _ => none
  | room + 1, s => do
    let s ← s.next?
    if s.tokens.head? = some .streamEnd then return s else readAll? room s

end Layout

/-- The tokens of a text. -/
def Token.ofText? (cs : List Char) : Option (List Token) :=
  if cs.all isAllowed then
    (Layout.readAll? (cs.length + 1) (Layout.start cs)).map fun s => s.tokens.reverse
  else none

end PropertyExpr.Yaml
