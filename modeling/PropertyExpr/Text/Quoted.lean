import PropertyExpr.Text.GraphemeExtend
import PropertyExpr.Text.Unprintable
/-!
# Quoted text

Messages show names and blocks between double quotes, so that every character can be told: quotes,
backslashes, line ends, tabs and NUL by a backslash and a letter, and every character that is not printable,
that shows nothing or that would join the one before it by its code point in hexadecimal.
-/
namespace PropertyExpr.Text

/-- The hexadecimal digits of `n` in lower case, without leading zeros. -/
def hex (n : Nat) : List Char := Nat.toDigits 16 n

/-- The fillers of Hangul syllables: letters that show nothing. -/
def isFiller (c : Char) : Bool := ['\u115f', '\u1160', '\u3164', '\uffa0'].contains c

/-- The halfwidth marks of voiced sounds: they extend the character before them but have a width of their own. -/
def isHalfwidthMark (c : Char) : Bool := c = '\uff9e' || c = '\uff9f'

/-- Whether quoted text shows `c` as it stands. -/
def isShown (c : Char) : Bool :=
  (' ' ≤ c && c ≤ '~') || isHalfwidthMark c || !(isUnprintable c || isFiller c || isGraphemeExtend c)

def quoteChar (c : Char) : List Char :=
  match c with
  | '"' => ['\\', '"']
  | '\\' => ['\\', '\\']
  | '\n' => ['\\', 'n']
  | '\r' => ['\\', 'r']
  | '\t' => ['\\', 't']
  | '\x00' => ['\\', '0']
  | c => if isShown c then [c] else '\\' :: 'u' :: '\x7b' :: hex c.toNat ++ ['\x7d']

/-- `s` between double quotes. -/
def quoted (s : String) : String := String.ofList ('"' :: s.toList.flatMap quoteChar ++ ['"'])

end PropertyExpr.Text
