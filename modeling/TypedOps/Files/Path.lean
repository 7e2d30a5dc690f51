import TypedOps.Text.Basic

/-!
# `TypedOps.Files.Path`: paths

A path is read part by part: empty parts and single points are dropped, so doubled
and final slashes do not matter, while two points stay. The path without parts is
the working directory.
-/

set_option autoImplicit false

namespace TypedOps

/-- A path. The root is empty for a path that starts in the working directory. -/
structure Path where
  root : Text := []
  parts : List Text := []
deriving DecidableEq, Repr

namespace Path

/-- The root that a text begins with: one slash, or exactly two. -/
def rootOf : Text → Text
  | '/' :: '/' :: '/' :: _ => "/"
  | '/' :: '/' :: _ => "//"
  | '/' :: _ => "/"
  | _ => []

/-- The path that a text names, with its root by `rootOf`. -/
def ofText (t : Text) : Path where
  root := rootOf t
  parts := (Text.splitOn '/' t).filter fun part => part != [] && part != "."

/-- The text of a `Path`. A path with no root and no parts is written as a point. -/
def text (p : Path) : Text :=
  if p.root.isEmpty && p.parts.isEmpty then "." else p.root ++ Text.join "/" p.parts

/-- The last part of a path, empty if there is none. -/
def name (p : Path) : Text := (p.parts.getLast?).getD []

/-- The path without its last part. -/
def parent (p : Path) : Path := { p with parts := p.parts.dropLast }

/-- A path one part longer. The part is taken as it is, slashes included. -/
def join (p : Path) (part : Text) : Path := { p with parts := p.parts ++ [part] }

/-- The end of the last part from its last point on, if something stands on either
side of that point. -/
def extension (p : Path) : Text :=
  match Text.cut '.' p.name.reverse with
  | (_, none) => []
  | (after, some before) => if after.isEmpty || before.isEmpty then [] else '.' :: after.reverse

end Path

end TypedOps
