import TypedOps.Text.Basic

/-!
# `TypedOps.Text.Blank`: code points that count as white space

One class decides what is trimmed from a line, what makes a line blank and what
separates tokens. It holds the space, the control characters from tab to
carriage return, the four information separators, the next-line control and the
space separators and line separators of Unicode.
-/

set_option autoImplicit false

namespace TypedOps.Text

/-- Whether a code point is white space. -/
def isBlank (c : Char) : Bool :=
  let n := c.toNat
  (9 ≤ n && n ≤ 13) || (28 ≤ n && n ≤ 32) || n == 0x85 || n == 0xA0 || n == 0x1680 ||
    (0x2000 ≤ n && n ≤ 0x200A) || n == 0x2028 || n == 0x2029 || n == 0x202F || n == 0x205F ||
    n == 0x3000

/-- The text without white space at either end, see `isBlank` for what that is. -/
def strip (t : Text) : Text := trim isBlank t

/-- The text without white space (`isBlank`) at its end. -/
def stripEnd (t : Text) : Text := trimEnd isBlank t

end TypedOps.Text
