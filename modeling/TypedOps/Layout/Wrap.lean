import TypedOps.Layout.Arguments
import TypedOps.Text.Alphanumeric

/-!
# `TypedOps.Layout.Wrap`: wrapping long lines

Two shapes of line can be wrapped: a function definition, one parameter a line,
and an assignment of a call with more than one argument, one argument a line. Every
item gets a comma behind it. A line of any other shape stays.

In an assignment the target is a run without white space before an equals sign, as
long as possible, and the called expression reaches to the first opening bracket
behind at least one code point; when only white space stands before that bracket,
its last code point is taken for the expression.
-/

set_option autoImplicit false

namespace TypedOps.Layout

open Text

/-- The parts of a function definition. `result` is what stands between the
closing bracket of the parameters and the colon. -/
structure Definition where
  indent : Text
  name : Text
  params : Text
  result : Text
deriving DecidableEq, Repr

/-- The text before the last occurrence of a code point and the text behind it. -/
def cutLast? (sep : Char) (t : Text) : Option (Text × Text) :=
  match cut sep t.reverse with
  | (_, none) => none
  | (after, some before) => some (before.reverse, after.reverse)

/-- A text without its last code point, if that is the given one; a line feed may stand behind it.
-/
def dropLast? (c : Char) (t : Text) : Option Text :=
  match t.reverse with
  | '\n' :: d :: rest => if d = c then some rest.reverse else none
  | d :: rest => if d = c then some rest.reverse else none
  | [] => none

/-- Whether a text can stand between the parameters and the colon: nothing, or an
arrow and something without round brackets. -/
def isResult (t : Text) : Bool :=
  match t with
  | [] => true
  | _ =>
    match afterStart? "->" (t.dropWhile isBlank) with
    | some hint =>
      !hint.isEmpty && hint.all fun c => c != '(' && c != ')'
    | none => false

/-- The parts of a line that is a function `Definition`. The parameters reach to the last closing
bracket and hold no line feed. -/
def definition? (line : Text) : Option Definition := do
  let (indent, rest) := line.span isBlank
  let rest ← afterStart? "def" rest
  let (gap, rest) := rest.span isBlank
  let (name, rest) := rest.span isWord
  let rest ← afterStart? "(" rest
  let (params, rest) ← cutLast? ')' rest
  let result ← dropLast? ':' rest
  if !gap.isEmpty && !name.isEmpty && !params.contains '\n' && isResult result then
    some ⟨indent, name, params, result⟩
  else none

/-- The parts of an assignment of a call, as `callAssignment?` takes them apart. -/
structure CallAssignment where
  indent : Text
  target : Text
  callee : Text
  arguments : Text
deriving DecidableEq, Repr

/-- The called expression and the arguments in the text behind an equals sign. -/
def call? (t : Text) : Option (Text × Text) :=
  let (space, rest) := t.span isBlank
  match rest with
  | [] => none
  | c :: tail =>
    match cut '(' tail with
    | (before, some arguments) => some (c :: before, arguments)
    | (_, none) =>
      match space.getLast? with
      | some blank => if c = '(' then some ([blank], tail) else none
      | none => none

/-- The target and the text behind the equals sign, cut at each equals sign inside
a run without white space, the last one first; a target is not empty. -/
def cutsInside (before : Text) : Text → List (Text × Text)
  | [] => []
  | c :: rest =>
    cutsInside (before ++ [c]) rest ++
      if c = '=' && !before.isEmpty then [(before, rest)] else []

/-- The ways to cut a text into a target and what stands behind the equals sign, the longest target
first. Those within a run come from `cutsInside`. -/
def assignmentCuts (t : Text) : List (Text × Text) :=
  let run := t.takeWhile fun c => !isBlank c
  let rest := t.drop run.length
  let whole : List (Text × Text) :=
    match rest.dropWhile isBlank with
    | '=' :: behind => if run.isEmpty then [] else [(run, behind)]
    | _ => []
  whole ++ (cutsInside [] run).map fun (target, behind) => (target, behind ++ rest)

/-- The parts of a line that assigns a call, by the first of its `assignmentCuts` that has one. -/
def callAssignment? (line : Text) : Option CallAssignment := do
  let body ← dropLast? ')' line
  let (indent, rest) := body.span isBlank
  (assignmentCuts rest).findSome? fun (target, behind) =>
    (call? behind).map fun (callee, arguments) => ⟨indent, target, callee, arguments⟩

/-- The lines of a list of items, one a line, each with a comma behind it. -/
def itemLines (indent : Text) (items : List Text) : List Text :=
  items.map fun item => indent ++ "    " ++ item ++ [',']

/-- The lines that a long line is wrapped into, with `itemLines` in the middle. A line stays if it
is no definition and assigns no call with several arguments. -/
def wrapLine (line : Text) : List Text :=
  match definition? line with
  | some d =>
    [d.indent ++ "def " ++ d.name ++ ['(']] ++ itemLines d.indent (splitArguments d.params) ++
      [d.indent ++ ')' :: d.result ++ [':']]
  | none =>
    match callAssignment? line with
    | some a =>
      if 1 < (splitArguments a.arguments).length then
        [a.indent ++ a.target ++ " = " ++ a.callee ++ ['(']] ++
          itemLines a.indent (splitArguments a.arguments) ++ [a.indent ++ [')']]
      else [line]
    | none => [line]

end TypedOps.Layout
