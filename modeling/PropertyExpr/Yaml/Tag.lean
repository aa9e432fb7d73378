/-!
# Tags of YAML nodes

A tag is a run of bytes. Text may spell each of them as `%XX`, and only the shape of such bytes is looked at, so
a tag need not be UTF-8. A zero byte ends it.
-/
namespace PropertyExpr.Yaml

/-- A tag, or a part of one. -/
structure Tag where
  bytes : List UInt8
  zero_notMem : 0 ∉ bytes
deriving DecidableEq, Repr

namespace Tag

/-- The tag that bytes spell. -/
def ofBytes (bytes : List UInt8) : Tag :=
  ⟨bytes.takeWhile (· ≠ 0), fun h => by simpa using List.all_eq_true.1 List.all_takeWhile 0 h⟩

def ofString (s : String) : Tag := ofBytes s.toUTF8.toList

instance : Append Tag :=
  ⟨fun s t => ⟨s.bytes ++ t.bytes, by simp [s.zero_notMem, t.zero_notMem]⟩⟩

/-- What the tags of the YAML core start with. -/
def corePrefix : Tag := ofString "tag:yaml.org,2002:"

/-- A tag of the YAML core. -/
def core (name : String) : Tag := corePrefix ++ ofString name

/-- Whether a tag starts with a mark. -/
def isMarked (t : Tag) : Bool := t.bytes.head? = some '!'.toUInt8

/-- Whether a tag names a type of its own: it starts with a mark and is UTF-8. -/
def isOwn (t : Tag) : Bool := t.isMarked && (String.fromUTF8? ⟨t.bytes.toArray⟩).isSome

end Tag

end PropertyExpr.Yaml
