/-!
# Formats of environment files: `environment::EnvFormat`
-/
namespace PropertyExpr

/-- What an environment file is written in (`EnvFormat`). -/
inductive Environment.Format where
  | json | yaml
deriving DecidableEq, Repr

namespace Environment.Format

/-- The format with a name, in any case (`EnvFormat::parse`). The names are ASCII, and so is all that differs from them
in case. -/
def ofName? (name : String) : Option Format :=
  let name := String.ofList (name.toList.map Char.toLower)
  if name = "json" then some json
  else if name = "yaml" ∨ name = "yml" then some yaml
  else none

/-- The components of a path. A single point names the directory before it and is none. -/
def components (path : List Char) : List (List Char) :=
  (go [] path).filter fun part => part ≠ [] ∧ part ≠ ['.']
where
  /-- The parts between slashes, of which `part` has been read, the last character first. -/
  go (part : List Char) : List Char → List (List Char)
    | [] => [part.reverse]
    | c :: cs => if c = '/' then part.reverse :: go [] cs else go (c :: part) cs

/-- What stands behind the last point of a file name, unless nothing stands before that point. -/
def extension? (name : List Char) : Option (List Char) :=
  if name = ['.', '.'] then none
  else
    let extension := (name.reverse.takeWhile (· ≠ '.')).reverse
    let stem := name.take (name.length - extension.length - 1)
    if '.' ∈ name ∧ stem ≠ [] then some extension else none

/-- The format that the extension of a path names, or JSON (`EnvFormat::from_path`). -/
def ofPath (path : String) : Format :=
  (((components path.toList).getLast?.bind extension?).bind fun e => ofName? (String.ofList e)).getD json

end Environment.Format

end PropertyExpr
