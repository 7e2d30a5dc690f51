import TypedOps.Files.Path
import TypedOps.Text.Quoted
import TypedOps.Text.Utf8

/-!
# `TypedOps.Files.Tree`: files and directories

A `FileTree` says what stands at each location. Following a path step by step asks
for a directory at every step, also where the next part leads back up, and for a
part that is short enough to be a name. What operations on files can refuse is a
`FileFault`, which names the path as it was given.
-/

set_option autoImplicit false

namespace TypedOps

/-- What stands at a location: a file with its content, or a directory. -/
inductive Node where
  | file (content : Bytes)
  | directory
deriving DecidableEq, Repr

/-- The place that a path leads to: names below the working directory, or below a
root that comes first. -/
abbrev Location := List Text

/-- Files and directories by location, each a `Node`. The working directory is always there. -/
structure FileTree where
  nodes : List (Location × Node) := []
deriving DecidableEq, Repr

/-- What an operation on files refuses, with the path that it was asked for. -/
inductive FileFault where
  | notFound (path : Path)
  | exists (path : Path)
  | notDirectory (path : Path)
  | isDirectory (path : Path)
  /-- A part of the path, or all of it, is too long. -/
  | tooLong (path : Path)
  /-- No name has the code point zero in it. -/
  | nullInPath (path : Path)
  /-- A file cannot be renamed onto a directory. -/
  | ontoDirectory (source target : Path)
  /-- A file cannot be renamed onto the place a directory has in itself. -/
  | busy (source target : Path)
deriving DecidableEq, Repr

namespace FileFault

/-- The path of a `FileFault` between quotes, as messages show it. -/
def quotedPath (p : Path) : Text := Text.quoted p.text

/-- The message of a `FileFault`, with the number of the system's error where there is one. -/
def message : FileFault → Text
  | .notFound p => "[Errno 2] No such file or directory: " ++ quotedPath p
  | .exists p => "[Errno 17] File exists: " ++ quotedPath p
  | .notDirectory p => "[Errno 20] Not a directory: " ++ quotedPath p
  | .isDirectory p => "[Errno 21] Is a directory: " ++ quotedPath p
  | .tooLong p => "[Errno 36] File name too long: " ++ quotedPath p
  | .nullInPath p => "Null in a path: " ++ quotedPath p
  | .ontoDirectory s t => "[Errno 21] Is a directory: " ++ quotedPath s ++ " -> " ++ quotedPath t
  | .busy s t => "[Errno 16] Device or resource busy: " ++ quotedPath s ++ " -> " ++ quotedPath t

end FileFault

namespace FileTree

/-- What stands at a `Location`, if anything does. -/
def node? (tree : FileTree) (location : Location) : Option Node :=
  if location.isEmpty || location == ["/".toList] || location == ["//".toList] then some .directory
  else tree.nodes.lookup location

/-- Whether a directory stands at a location. -/
def hasDirectory (tree : FileTree) (location : Location) : Bool :=
  tree.node? location == some .directory

/-- One step from a directory. Two points lead up, above the working directory if
need be, but not above a root. -/
def step (here : Location) (part : Text) : Location :=
  if part = ".." then
    if here == ["/".toList] || here == ["//".toList] then here
    else if here.isEmpty || here.getLast? == some "..".toList then here ++ [part]
    else here.dropLast
  else here ++ [part]

/-- Why a directory is not there, for a path that leads through it. -/
def missingDirectory (tree : FileTree) (here : Location) (path : Path) : FileFault :=
  match tree.node? here with
  | none => .notFound path
  | some _ => .notDirectory path

/-- The bytes that a name may have. Code points past ASCII take more than one. -/
def nameLimit : Nat := 255

/-- The bytes that a path may have, all names and slashes together. -/
def pathLimit : Nat := 4095

/-- The location that the parts lead to, by one `step` each. Every step starts in a directory. -/
def follow (tree : FileTree) (path : Path) (here : Location) :
    List Text → Except FileFault Location
  | [] => .ok here
  | part :: rest =>
    if !tree.hasDirectory here then .error (tree.missingDirectory here path)
    else if nameLimit < (Utf8.encode part).length then .error (.tooLong path)
    else follow tree path (step here part) rest

/-- The location of a path, by `follow` from its root, whether or not anything stands there. -/
def locate (tree : FileTree) (path : Path) : Except FileFault Location :=
  if path.text.contains '\x00' then .error (.nullInPath path)
  else if pathLimit < (Utf8.encode path.text).length then .error (.tooLong path)
  else tree.follow path (if path.root.isEmpty then [] else [path.root]) path.parts

/-- Whether a path leads to a directory. No answer is given for a path that is too
long. -/
def isDirectory (tree : FileTree) (path : Path) : Except FileFault Bool :=
  match tree.locate path with
  | .ok location => .ok (tree.hasDirectory location)
  | .error (.tooLong p) => .error (.tooLong p)
  | .error _ => .ok false

/-- The content of a file, or why there is none to read at the place that `locate` gives. -/
def read (tree : FileTree) (path : Path) : Except FileFault Bytes := do
  let location ← tree.locate path
  match tree.node? location with
  | some (.file content) => return content
  | some .directory => throw (.isDirectory path)
  | none => throw (.notFound path)

/-- The names of the files in a directory, in code-point order. -/
def fileNames (tree : FileTree) (location : Location) : List Text :=
  (tree.nodes.filterMap fun (place, node) =>
    match node, place.getLast? with
    | .file _, some name => if place.dropLast == location then some name else none
    | _, _ => none).mergeSort Text.le

/-- The files of a directory, if there is one, in the order of `fileNames`. -/
def files? (tree : FileTree) (path : Path) : Except FileFault (Option (List Path)) := do
  if ← tree.isDirectory path then
    return some ((tree.fileNames (← tree.locate path)).map path.join)
  else return none

/-- The tree with something at a location, in place of what stands there. -/
def set (tree : FileTree) (location : Location) (node : Node) : FileTree :=
  ⟨go tree.nodes⟩
where
  go : List (Location × Node) → List (Location × Node)
    | [] => [(location, node)]
    | (l, n) :: rest => if l == location then (location, node) :: rest else (l, n) :: go rest

/-- The tree with nothing at a location. -/
def remove (tree : FileTree) (location : Location) : FileTree :=
  ⟨tree.nodes.filter fun (l, _) => l != location⟩

/-- Make the directory of a path, in the directory that has to be there. -/
def makeDirectory (tree : FileTree) (path : Path) : Except FileFault FileTree := do
  let location ← tree.locate path
  match tree.node? location with
  | none => return tree.set location .directory
  | some _ => throw (.exists path)

/-- What a refusal to make a directory comes to: nothing if the directory is there
already. -/
def unlessDirectory (tree : FileTree) (path : Path) (fault : FileFault) :
    Except FileFault Unit := do
  if ← tree.isDirectory path then return () else throw fault

/-- Make the directory of a path and those above it that are missing. A directory
that is there already is fine, anything else in its place is not. The parts are
counted down. The tree is given back in any case: directories made before a refusal
stay. -/
def makeDirectoriesFrom (tree : FileTree) (path : Path) :
    (fuel : Nat) → Except FileFault Unit × FileTree
  | 0 => (.error (.notFound path), tree)
  | fuel + 1 =>
    match tree.makeDirectory path with
    | .ok made => (.ok (), made)
    | .error (.notFound p) =>
      if path.parts.isEmpty then (.error (.notFound p), tree)
      else
        match makeDirectoriesFrom tree path.parent fuel with
        | (.error fault, above) => (.error fault, above)
        | (.ok (), above) =>
          match above.makeDirectory path with
          | .ok made => (.ok (), made)
          | .error fault => (above.unlessDirectory path fault, above)
    | .error fault => (tree.unlessDirectory path fault, tree)

/-- Make the directory of a path with all directories above it. -/
def makeDirectories (tree : FileTree) (path : Path) : Except FileFault Unit × FileTree :=
  tree.makeDirectoriesFrom path (path.parts.length + 1)

/-- A name for a temporary file beside `name` that nothing in the directory
has. -/
def temporaryName (tree : FileTree) (directory : Location) (name : Text) : Text :=
  let candidate (n : Nat) : Text := '.' :: name ++ '.' :: Text.padded 10 8 n ++ ".tmp"
  let free (n : Nat) := (tree.node? (directory ++ [candidate n])).isNone
  candidate (((List.range (tree.nodes.length + 1)).find? free).getD (tree.nodes.length + 1))

/-- The path of a temporary file beside that of a path, and its location. -/
def temporaryPath (tree : FileTree) (path : Path) : Except FileFault (Path × Location) := do
  let directory ← tree.locate path.parent
  let temporary := path.parent.join (tree.temporaryName directory path.name)
  return (temporary, ← tree.locate temporary)

/-- Rename a file onto the place of a path. The last part of the path has to be a
name of its own. -/
def rename (tree : FileTree) (source : Location) (sourcePath target : Path) :
    Except FileFault FileTree := do
  if target.name.isEmpty || target.name = ".." then throw (.busy sourcePath target)
  let location ← tree.locate target
  match tree.node? location, tree.node? source with
  | some .directory, _ => throw (.ontoDirectory sourcePath target)
  | _, some node => return (tree.remove source).set location node
  | _, none => throw (.notFound sourcePath)

/-- Write a file through a temporary one in its directory, which is made if need
be. The tree is given back in any case: a failed rename leaves no temporary file,
though it leaves the directories. -/
def writeAtomically (tree : FileTree) (path : Path) (content : Bytes) :
    Except FileFault Unit × FileTree :=
  match tree.makeDirectories path.parent with
  | (.error fault, tree) => (.error fault, tree)
  | (.ok (), tree) =>
    match tree.temporaryPath path with
    | .error fault => (.error fault, tree)
    | .ok (temporary, source) =>
      let written := tree.set source (.file content)
      match written.rename source temporary path with
      | .ok renamed => (.ok (), renamed)
      | .error fault => (.error fault, written.remove source)

end FileTree

end TypedOps
