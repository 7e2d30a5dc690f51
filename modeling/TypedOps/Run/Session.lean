import TypedOps.Emit.Module
import TypedOps.Files.Tree
import TypedOps.Text.Utf8

/-!
# `TypedOps.Run.Session`: what a run reads, writes and says

A run works on a file tree, prints lines and gives warnings. A fault ends it, and
everything up to there stands: the state goes on past the fault.
-/

set_option autoImplicit false

namespace TypedOps

/-- The state of a run: the files, and what the user has been told so far. -/
structure Session where
  tree : FileTree
  printed : List Text := []
  warnings : List Warning := []

/-- What a run has to be told. -/
inductive Setting where
  | catalog
  | output
  | binding
deriving DecidableEq, Repr

/-- Why a run ends early. Some of these faults nobody looks out for, see `RunFault.isReported`. -/
inductive RunFault where
  /-- Pointers are not sixty-four bits wide. -/
  | unsupportedWidth (width : Int)
  /-- A catalog does not decode. -/
  | catalogMalformed
  /-- A catalog in text form is not UTF-8. -/
  | catalogNotText (path : Path)
  /-- An element number in a catalog is no 32-bit integer. -/
  | catalogOutOfRange
  /-- A file is not UTF-8. -/
  | notText (path : Path)
  /-- A directory of override documents is not there. -/
  | directoryMissing (path : Path)
  /-- An operation on files is refused. -/
  | file (fault : FileFault)
  /-- Code cannot be generated. -/
  | emit (fault : EmitFault)
  /-- A setting has no value. -/
  | unset (setting : Setting)
deriving DecidableEq, Repr

/-- The message of a fault. A fault in a catalog or a value says no more than what
kind it is. -/
def RunFault.message : RunFault → Text
  | .unsupportedWidth width =>
    "This program only supports 64-bit interpreters (got " ++ Text.ofInt width ++ "-bit)"
  | .catalogMalformed => "Invalid operation catalog"
  | .catalogNotText path => "Invalid operation catalog " ++ path.text
  | .catalogOutOfRange => "Element type out of range"
  | .notText path => "Not a text: " ++ path.text
  | .directoryMissing path => "Api definition directory not found: " ++ path.text
  | .file fault => fault.message
  | .emit fault => fault.message?.getD "Default value does not fit its type"
  | .unset .catalog => "No catalog is given"
  | .unset .output => "No output file is given"
  | .unset .binding => "No binding is given"

/-- Whether a fault is reported to the user; nothing looks out for the others. -/
def RunFault.isReported : RunFault → Bool
  | .file (.nullInPath _) => false
  | .unsupportedWidth _ | .catalogMalformed | .catalogNotText _ | .directoryMissing _ | .file _
  | .emit (.unmapped ..) => true
  | _ => false

/-- A step of a run. A fault ends the run, but the session up to there stays. -/
abbrev Run (α : Type) := ExceptT RunFault (StateM Session) α

namespace Run

/-- Print a line behind those printed before. -/
def say (line : Text) : Run Unit := modify fun s => { s with printed := s.printed ++ [line] }

/-- Give warnings behind those given before. -/
def warn (ws : List Warning) : Run Unit := modify fun s => { s with warnings := s.warnings ++ ws }

/-- Go on with a result or end with its fault, named as one of the run. -/
def ofExcept {ε α : Type} (fault : ε → RunFault) : Except ε α → Run α
  | .ok a => pure a
  | .error e => throw (fault e)

/-- The value of a setting, or the end of the run if it has none. -/
def required (setting : Setting) : Option Text → Run Text
  | some value => pure value
  | none => throw (.unset setting)

/-- The content of a file in the tree of the session. -/
def readFile (path : Path) : Run Bytes := do
  ofExcept .file ((← get).tree.read path)

/-- Line ends of any kind as line feeds. -/
def withLineFeeds : Text → Text
  | [] => []
  | '\r' :: '\n' :: rest => '\n' :: withLineFeeds rest
  | c :: rest => (if c = '\r' then '\n' else c) :: withLineFeeds rest

/-- The text of a file, or nothing if it is not UTF-8. -/
def readText? (path : Path) : Run (Option Text) := do
  return (Utf8.decode? (← readFile path)).map withLineFeeds

/-- The text of a file. Bytes that are not UTF-8 end the run. -/
def readText (path : Path) : Run Text := do
  match ← readText? path with
  | some t => return t
  | none => throw (.notText path)

/-- The files of a directory in the order of their names. -/
def listFiles (directory : Path) : Run (List Path) := do
  match ← ofExcept .file ((← get).tree.files? directory) with
  | some paths => return paths
  | none => throw (.directoryMissing directory)

/-- Write a file as a whole or not at all. -/
def writeFile (path : Path) (content : Bytes) : Run Unit := do
  let (result, tree) := (← get).tree.writeAtomically path content
  modify fun s => { s with tree := tree }
  ofExcept .file result

end Run

end TypedOps
