import TypedOps.Text.Printable
import TypedOps.Text.Basic

/-!
# `TypedOps.Text.Quoted`: quoted literals

A literal stands between single quotes, or between double quotes when the text
holds a single quote and no double one. The backslash, the enclosing quote, line
feed, carriage return and tab are escaped by a letter or by themselves;
everything else that is not printable is escaped by its number, in the shortest
of the three widths that holds it.
-/

set_option autoImplicit false

namespace TypedOps.Text

/-- The quote that encloses a literal: double ones only for a text with single quotes and no double
ones. -/
def enclosingQuote (t : Text) : Char :=
  if t.contains '\'' && !t.contains '"' then '"' else '\''

/-- A code point as its number behind a backslash. -/
def numericEscape (n : Nat) : Text :=
  if n < 0x100 then "\\x" ++ padded 16 2 n
  else if n < 0x10000 then "\\u" ++ padded 16 4 n
  else "\\U" ++ padded 16 8 n

/-- A code point inside a literal enclosed by `quote`. -/
def quotedChar (quote c : Char) : Text :=
  if c = '\\' || c = quote then ['\\', c]
  else if c = '\n' then "\\n"
  else if c = '\r' then "\\r"
  else if c = '\t' then "\\t"
  else if isPrintable c then [c]
  else numericEscape c.toNat

/-- The literal of a text, with an `enclosingQuote` at either end and everything escaped that cannot
be shown. -/
def quoted (t : Text) : Text :=
  let quote := enclosingQuote t
  quote :: t.flatMap (quotedChar quote) ++ [quote]

/-- A byte inside a byte literal enclosed by `quote`. Bytes outside ASCII are
escaped by their number. -/
def quotedByte (quote : Char) (b : UInt8) : Text :=
  if b.toNat < 128 then quotedChar quote (Char.ofNat b.toNat) else numericEscape b.toNat

/-- The literal of a byte string, each byte by `quotedByte`. -/
def quotedBytes (bytes : Bytes) : Text :=
  let quote := enclosingQuote (bytes.map fun b => Char.ofNat b.toNat)
  'b' :: quote :: bytes.flatMap (quotedByte quote) ++ [quote]

end TypedOps.Text
