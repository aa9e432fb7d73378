/-!
# Blank characters

The Unicode property `White_Space`: what separates tokens and what is trimmed from a text before it is read
as a number.
-/
namespace PropertyExpr.Text

/-- The code points with the property `White_Space`, as inclusive ranges. -/
def blankRanges : List (Nat × Nat) :=
  [(0x9, 0xD), (0x20, 0x20), (0x85, 0x85), (0xA0, 0xA0), (0x1680, 0x1680), (0x2000, 0x200A),
   (0x2028, 0x2029), (0x202F, 0x202F), (0x205F, 0x205F), (0x3000, 0x3000)]

def isBlank (c : Char) : Bool :=
  blankRanges.any fun (first, last) => first ≤ c.toNat && c.toNat ≤ last

/-- `cs` without the blanks at its front. -/
def trimLeft (cs : List Char) : List Char := cs.dropWhile isBlank

/-- `cs` without the blanks at its ends. -/
def trim (cs : List Char) : List Char := (trimLeft (trimLeft cs).reverse).reverse

/-- A text without blanks is not trimmed. -/
theorem trim_eq_self {cs : List Char} (h : ∀ c ∈ cs, isBlank c = false) : trim cs = cs := by
  have hleft (cs : List Char) (h : ∀ c ∈ cs, isBlank c = false) : trimLeft cs = cs := by
    cases cs with
    | nil => rfl
    | cons c cs => exact List.dropWhile_cons_of_neg (by simp [h c List.mem_cons_self])
  rw [trim, hleft cs h, hleft _ (by simpa using h), List.reverse_reverse]

end PropertyExpr.Text
