/-!
# Byte lengths and byte ranges

Text is a list of characters; places in it are counted in UTF-8 bytes. A range whose ends fall between
characters cuts out exactly the characters inside it (`slice_append`).
-/
namespace PropertyExpr.Text

/-- The number of bytes that `cs` takes in UTF-8. -/
def byteLength : List Char → Nat
  | [] => 0
  | c :: cs => c.utf8Size + byteLength cs

@[simp] theorem byteLength_nil : byteLength [] = 0 := rfl

@[simp] theorem byteLength_cons (c : Char) (cs : List Char) :
    byteLength (c :: cs) = c.utf8Size + byteLength cs := rfl

@[simp] theorem byteLength_append (a b : List Char) :
    byteLength (a ++ b) = byteLength a + byteLength b := by
  induction a with
  | nil => simp
  | cons c a ih => simp [ih, Nat.add_assoc]

/-- `cs` without its first `n` bytes; a character that is cut in two is dropped. -/
def dropBytes : Nat → List Char → List Char
  | 0, cs => cs
  | _ + 1, [] => []
  | n + 1, c :: cs => dropBytes (n + 1 - c.utf8Size) cs

/-- The characters of `cs` that end within its first `n` bytes. -/
def takeBytes : Nat → List Char → List Char
  | 0, _ => []
  | _ + 1, [] => []
  | n + 1, c :: cs => if c.utf8Size ≤ n + 1 then c :: takeBytes (n + 1 - c.utf8Size) cs else []

/-- The characters of `cs` between two byte offsets. -/
def slice (cs : List Char) (start stop : Nat) : List Char :=
  takeBytes (stop - start) (dropBytes start cs)

theorem dropBytes_append (a b : List Char) : dropBytes (byteLength a) (a ++ b) = b := by
  induction a with
  | nil => cases b <;> rfl
  | cons c a ih =>
    have hc := c.utf8Size_pos
    obtain ⟨n, hn⟩ : ∃ n, c.utf8Size + byteLength a = n + 1 := ⟨c.utf8Size + byteLength a - 1, by omega⟩
    have : n + 1 - c.utf8Size = byteLength a := by omega
    rw [byteLength_cons, hn, List.cons_append, dropBytes, this, ih]

theorem takeBytes_append (a b : List Char) : takeBytes (byteLength a) (a ++ b) = a := by
  induction a with
  | nil => cases b <;> rfl
  | cons c a ih =>
    have hc := c.utf8Size_pos
    obtain ⟨n, hn⟩ : ∃ n, c.utf8Size + byteLength a = n + 1 := ⟨c.utf8Size + byteLength a - 1, by omega⟩
    have : n + 1 - c.utf8Size = byteLength a := by omega
    rw [byteLength_cons, hn, List.cons_append, takeBytes, if_pos (by omega), this, ih]

/-- A range between characters is cut out exactly. -/
theorem slice_append (a b c : List Char) :
    slice (a ++ (b ++ c)) (byteLength a) (byteLength a + byteLength b) = b := by
  rw [slice, dropBytes_append, Nat.add_sub_cancel_left, takeBytes_append]

end PropertyExpr.Text
