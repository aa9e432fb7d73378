import PropertyExpr.Log
import PropertyExpr.Value.Basic
/-!
# Environments: `environment::Environment`

An environment answers references. A host function may answer by what it has been asked before, so an answer
depends on the references asked earlier in the same evaluation, the latest first.
-/
namespace PropertyExpr

structure Environment where
  answer : (asked : List Reference) → Reference → Except LookupError Value

namespace Environment

/-- The environment without sources (`EmptyEnvironment`). -/
def empty : Environment := ⟨fun _ r => .error (.unknownSource r.name)⟩

/-- The environment that answers the same reference always alike (`QueryFn`). -/
def ofFunction (f : Reference → Except LookupError Value) : Environment := ⟨fun _ r => f r⟩

end Environment

end PropertyExpr
