import TypedOps.Run.CommandLine

/-!
# `TypedOps.Main`: the program

The only module that touches the disk. It looks at the places that the command line
names, runs `CommandLine.runProgram` on the tree it found there, and then writes and
prints what came of that. Everything that is decided is decided by the run.
-/

set_option autoImplicit false

namespace TypedOps.Disk

/-- A `Location` as the system names it. -/
def nameOf (location : Location) : String :=
  String.ofList <|
    match location with
    | [] => "."
    | first :: rest =>
      if first == "/".toList || first == "//".toList then first ++ Text.join "/" rest
      else Text.join "/" location

/-- What stands at a location. What cannot be read is not there. -/
def look (location : Location) : IO (Option Node) := do
  try
    let place ← IO.FS.realPath (nameOf location)
    if ← place.isDir then return some .directory
    return some (.file (← IO.FS.readBinFile place).toList)
  catch _ => return none

/-- Take what stands at a location, as `look` finds it, into the tree. -/
def observe (tree : FileTree) (location : Location) : IO FileTree := do
  match ← look location with
  | some node => return tree.set location node
  | none => return tree

/-- The locations that the parts of a path lead through. -/
def visited (here : Location) : List Text → List Location
  | [] => [here]
  | part :: rest => here :: visited (FileTree.step here part) rest

/-- Take what each of the locations `visited` by a path holds into the tree. -/
def observePath (tree : FileTree) (path : Path) : IO FileTree :=
  (visited (if path.root.isEmpty then [] else [path.root]) path.parts).foldlM observe tree

/-- Take a directory and what stands in it into the tree, behind `observePath` for the way there. -/
def observeDirectory (tree : FileTree) (path : Path) : IO FileTree := do
  let tree ← observePath tree path
  match tree.locate path with
  | .error _ => return tree
  | .ok location =>
    if tree.hasDirectory location then
      let entries ← (← IO.FS.realPath (nameOf location)).readDir
      entries.toList.foldlM (fun tree entry => observe tree (location ++ [entry.fileName.toList]))
        tree
    else return tree

/-- Everything that a run of the `Request` looks at, taken into a tree before the run. -/
def observeRequest (request : Request) : IO FileTree := do
  let tree ← (request.catalog.toList.map Path.ofText).foldlM observePath {}
  let tree ← (request.directories.map Path.ofText).foldlM observeDirectory tree
  (request.output.toList.map Path.ofText).foldlM
    (fun tree output => do observePath (← observeDirectory tree output.parent) output) tree

/-- Write what has changed. A file is written under another name first, so that the
old one stays if that fails. -/
def save (before after : FileTree) : IO Unit := do
  for (location, node) in after.nodes do
    if before.node? location != some node then
      match node with
      | .directory => IO.FS.createDirAll (nameOf location)
      | .file content =>
        let directory := location.dropLast
        let name := after.temporaryName directory ((location.getLast?).getD [])
        IO.FS.writeBinFile (nameOf (directory ++ [name])) ⟨content.toArray⟩
        IO.FS.rename (nameOf (directory ++ [name])) (nameOf location)

end TypedOps.Disk

open TypedOps in
/-- Run the program on the words of its command line, and exit with its status. The files are read
before the run, and `save` writes what has changed behind it. -/
def main (args : List String) : IO UInt32 := do
  let words := args.map String.toList
  let tree ←
    match CommandLine.parse words with
    | .ok options => Disk.observeRequest options.request
    | .error _ => pure {}
  let (ending, session) :=
    CommandLine.runProgram TypeTable.standard USize.size.log2 words tree
  Disk.save tree session.tree
  for line in session.printed do
    IO.println (String.ofList line)
  for warning in session.warnings do
    IO.eprintln (String.ofList ("tfopgen: warning: ".toList ++ warning.message))
  if let some line := ending.errorLine? then
    IO.eprintln (String.ofList line)
  if let .escaped fault := ending then
    IO.eprintln (String.ofList fault.message)
  return (ending.status?.getD 1).toUInt32
