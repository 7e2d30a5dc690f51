import TypedOps.Text.Basic

/-!
# `TypedOps.Emit.Line`: lines of code and their indentation

A block of code is a list of lines, each with its depth inside the block. A
`Writer` puts blocks at its own level, four columns a level. An empty line
carries no indentation, and a level below zero has none either. Going down from
level zero is refused.
-/

set_option autoImplicit false

namespace TypedOps

/-- A line of code and its depth in the block it belongs to. -/
structure Line where
  depth : Nat := 0
  text : Text
deriving DecidableEq, Repr

instance : Coe Text Line := ⟨fun t => { text := t }⟩

/-- One level of indentation, which is four blanks. -/
def indentUnit : Text := "    "

/-- The indentation of a level, an `indentUnit` each. Below level zero there is none. -/
def indentation (level : Int) : Text := Text.fill (4 * level.toNat) ' '

/-- A line of text at a level, behind its `indentation`. An empty line stays empty. -/
def indented (level : Int) (t : Text) : Text :=
  if t.isEmpty then [] else indentation level ++ t

/-- The text of a `Line` in a block at the given level. -/
def Line.render (level : Int) (line : Line) : Text := indented (level + line.depth) line.text

/-- The block one level deeper. -/
def deeper (block : List Line) : List Line :=
  block.map fun line => { line with depth := line.depth + 1 }

/-- Lines written so far and the level of the next one. -/
structure Writer where
  level : Int := 0
  lines : List Text := []
deriving DecidableEq, Repr

namespace Writer

/-- Write a line at the current level, `indented` by it. -/
def line (w : Writer) (t : Text) : Writer := { w with lines := w.lines ++ [indented w.level t] }

/-- Write a block at the current level, each line by `Line.render`. -/
def block (w : Writer) (b : List Line) : Writer :=
  { w with lines := w.lines ++ b.map (Line.render w.level) }

/-- Go one level deeper, so that a `line` written next stands further in. -/
def indent (w : Writer) : Writer := { w with level := w.level + 1 }

/-- Go one level back, which undoes `indent`, unless the level is zero. -/
def dedent? (w : Writer) : Option Writer :=
  if w.level = 0 then none else some { w with level := w.level - 1 }

/-- What the `Writer` holds, every line ended by a line feed. -/
def value (w : Writer) : Text := if w.lines.isEmpty then [] else Text.unlines w.lines ++ ['\n']

end Writer

end TypedOps
