/-!
# `TypedOps.Text.Basic`: texts as code points

Every text in this library is the list of its code points. Lengths, the line
limit and the order of names all count code points, so the list is the view in
which the rules are stated, and string literals are coerced into it.

* `Text.splitOn` / `Text.lines` cut a text at a separator and are undone by
  `Text.join`.
* `Text.le` is the code-point order every sorted output uses.
* `Text.replace` replaces non-overlapping occurrences from the left.
-/

set_option autoImplicit false

namespace TypedOps

/-- A text is the list of its code points, so that lemmas on lists apply to it. -/
abbrev Text := List Char

/-- Raw file and wire content. -/
abbrev Bytes := List UInt8

instance : Coe String Text := ⟨String.toList⟩

namespace Text

/-- Code-point order, a proper initial part first. It is the order in which names are sorted. -/
def le : Text → Text → Bool
  | [], _ => true
  | _ :: _, [] => false
  | c :: s, d :: t => c < d || (c == d && le s t)

/-- The pieces between the separators. There is always one more piece than
separators, so the result is never empty. -/
def splitOn (sep : Char) : Text → List Text
  | [] => [[]]
  | c :: rest =>
    if c = sep then [] :: splitOn sep rest
    else
      match splitOn sep rest with
      | [] => [[c]]
      | piece :: pieces => (c :: piece) :: pieces

/-- The lines of a text, by `splitOn`. Only the line feed ends a line. -/
def lines (t : Text) : List Text := splitOn '\n' t

/-- The pieces with the separator between neighbours. -/
def join (sep : Text) : List Text → Text
  | [] => []
  | [piece] => piece
  | piece :: next :: rest => piece ++ sep ++ join sep (next :: rest)

/-- Lines put together by `join` with line feeds, without a final one. -/
def unlines (ls : List Text) : Text := join ['\n'] ls

/-- The rest after a given beginning, or nothing if the text begins otherwise. -/
def afterStart? : (start : Text) → Text → Option Text
  | [], t => some t
  | _ :: _, [] => none
  | c :: start, d :: t => if c = d then afterStart? start t else none

/-- Whether the text begins with `start`. -/
def startsWith (t start : Text) : Bool := (afterStart? start t).isSome

/-- Whether the text finishes with `finish`. -/
def endsWith (t finish : Text) : Bool := startsWith t.reverse finish.reverse

/-- The text without its last `n` code points. -/
def dropEnd (t : Text) (n : Nat) : Text := t.take (t.length - n)

/-- The text without the given code points at its end. -/
def trimEnd (drop : Char → Bool) (t : Text) : Text := (t.reverse.dropWhile drop).reverse

/-- The text without the given code points at either end, the far one by `trimEnd`. -/
def trim (drop : Char → Bool) (t : Text) : Text := trimEnd drop (t.dropWhile drop)

/-- Replace every occurrence of `pattern`, scanning from the left and going on
behind each replaced occurrence; `skip` counts the code points of the current
occurrence that are still to be dropped. -/
def replaceFrom (pattern replacement : Text) : (skip : Nat) → Text → Text
  | _, [] => []
  | skip + 1, _ :: rest => replaceFrom pattern replacement skip rest
  | 0, c :: rest =>
    if startsWith (c :: rest) pattern then
      replacement ++ replaceFrom pattern replacement (pattern.length - 1) rest
    else c :: replaceFrom pattern replacement 0 rest

/-- Replace every non-overlapping occurrence of a nonempty pattern. -/
def replace (pattern replacement t : Text) : Text := replaceFrom pattern replacement 0 t

/-- The number of non-overlapping occurrences, found from the left. -/
def countFrom (pattern : Text) : (skip : Nat) → Text → Nat
  | _, [] => 0
  | skip + 1, _ :: rest => countFrom pattern skip rest
  | 0, c :: rest =>
    if startsWith (c :: rest) pattern then countFrom pattern (pattern.length - 1) rest + 1
    else countFrom pattern 0 rest

/-- The number of non-overlapping occurrences of a nonempty pattern, by `countFrom` the beginning.
-/
def count (pattern t : Text) : Nat := countFrom pattern 0 t

/-- The text before the first `sep` and, if there is one, the text behind it. -/
def cut (sep : Char) : Text → Text × Option Text
  | [] => ([], none)
  | c :: rest =>
    if c = sep then ([], some rest)
    else
      let (before, after) := cut sep rest
      (c :: before, after)

/-- The text of `n` copies of a code point. -/
def fill (n : Nat) (c : Char) : Text := List.replicate n c

/-- Decimal text of a natural number. -/
def ofNat (n : Nat) : Text := Nat.toDigits 10 n

/-- Decimal text of an integer, with `ofNat` behind a sign. -/
def ofInt : Int → Text
  | .ofNat n => ofNat n
  | .negSucc n => '-' :: ofNat (n + 1)

/-- Lowercase text of `n` in the given base, padded with zeros to `width`. -/
def padded (base width n : Nat) : Text :=
  let digits := Nat.toDigits base n
  fill (width - digits.length) '0' ++ digits

/-- The value of a digit in bases up to sixteen, either letter case. -/
def digitValue? (c : Char) : Option Nat :=
  let n := c.toNat
  if 48 ≤ n ∧ n ≤ 57 then some (n - 48)
  else if 97 ≤ n ∧ n ≤ 102 then some (n - 87)
  else if 65 ≤ n ∧ n ≤ 70 then some (n - 55)
  else none

/-- Whether `c` is a digit of the given base. -/
def isDigitOf (base : Nat) (c : Char) : Bool :=
  match digitValue? c with
  | some d => d < base
  | none => false

/-- The number a run of digits stands for, each by its `digitValue?`. -/
def digitsValue (base : Nat) (digits : Text) : Nat :=
  digits.foldl (fun n c => n * base + (digitValue? c).getD 0) 0

end Text

end TypedOps
