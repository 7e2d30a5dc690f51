import TypedOps.Api.Store
import TypedOps.Layout.Format
import TypedOps.Layout.Header
import TypedOps.Run.Session

/-!
# `TypedOps.Run.Generator`: from a catalog to a module

`generate` is a whole run: the width check, the catalog, the override directories
in the given order, the module, its layout and its head, and the file. The file is
written last and in one step, so a run that fails leaves the old one.
-/

set_option autoImplicit false

namespace TypedOps

open Run

/-- The endings of catalogs in text form. -/
def textEndings : List Text := [".pbtxt", ".txt"]

/-- The pointer width that generated code needs. -/
def requiredWidth : Int := 64

/-- Refuse a pointer width other than the required one. -/
def checkWidth (width : Int) : Except RunFault Unit :=
  if width = requiredWidth then .ok () else .error (.unsupportedWidth width)

/-- The operations of a catalog in text form. -/
def textOperations (t : Text) : Except RunFault (List Catalog.OperationDef) :=
  match Catalog.ofText t with
  | .ok operations => .ok operations
  | .error .malformed => .error .catalogMalformed
  | .error .outOfRange => .error .catalogOutOfRange

/-- The operations of a catalog in binary form. -/
def binaryOperations (content : Bytes) : Except RunFault (List Catalog.OperationDef) :=
  match Catalog.decode? content with
  | some operations => .ok operations
  | none => .error .catalogMalformed

/-- The operations of a catalog file; its ending tells the form. -/
def loadOperations (path : Path) : Run (List Catalog.OperationDef) := do
  if textEndings.contains path.extension then
    match ← readText? path with
    | some t => ofExcept id (textOperations t)
    | none => throw (.catalogNotText path)
  else ofExcept id (binaryOperations (← readFile path))

/-- Say something if asked to, and nothing otherwise. -/
def sayIf (verbose : Bool) (line : Text) : Run Unit := if verbose then say line else pure ()

/-- A store with the override files that were merged into it, in order. -/
structure Refinement where
  store : Api.Store
  merged : List Path := []

/-- Take the text of an override file in, unless it is no text or does not parse. -/
def Refinement.take? (state : Refinement) (path : Path) (text : Option Text) :
    Option Refinement :=
  (text.bind state.store.put?).map fun store => ⟨store, state.merged ++ [path]⟩

/-- Merge an override file, or warn if it is no text or does not parse. -/
def mergeFile (verbose : Bool) (state : Refinement) (path : Path) : Run Refinement := do
  match state.take? path (← readText? path) with
  | some refined =>
    sayIf verbose ("Merged api definitions: " ++ path.text)
    return refined
  | none =>
    warn [.overrideRefused path.text]
    return state

/-- Merge the files of a directory, in the order of their names. -/
def mergeDirectory (verbose : Bool) (state : Refinement) (directory : Path) : Run Refinement := do
  (← listFiles directory).foldlM (mergeFile verbose) state

/-- Merge the files of all directories into a store, in the order of the directories. -/
def mergeDirectories (verbose : Bool) (store : Api.Store) (directories : List Path) :
    Run Refinement :=
  directories.foldlM (mergeDirectory verbose) ⟨store, []⟩

/-- The operations of a catalog and their documentation after all overrides. The
catalog is named as it was given. -/
def loadCatalog (verbose : Bool) (catalog : Text) (directories : List Text) :
    Run (List Operation × Api.Store) := do
  let definitions ← loadOperations (Path.ofText catalog)
  sayIf verbose
    ("Loaded " ++ Text.ofNat definitions.length ++ " operations from " ++ catalog)
  let refined ← mergeDirectories verbose (Api.Store.ofDefinitions definitions)
    (directories.map Path.ofText)
  return (Catalog.signatures definitions, refined.store)

/-- What a run is asked for. A setting without a value is noticed where the run
comes to need it. -/
structure Request where
  catalog : Option Text
  directories : List Text := []
  output : Option Text
  binding : Option Text := some "graph"
  license : Option Text := none
  verbose : Bool := false

/-- The final text of a module: laid out, with its head in front. -/
def finalText (code : Text) (license : Option Text) : Text :=
  Layout.withHeader (Layout.format code) license

/-- Generate the module of a catalog. Nothing is written before all of it is made. -/
def generate (table : TypeTable) (width : Int) (request : Request) : Run Report := do
  ofExcept id (checkWidth width)
  let catalog ← required .catalog request.catalog
  let (ops, store) ← loadCatalog request.verbose catalog request.directories
  let binding ← required .binding request.binding
  let (warnings, result) := generateModuleNamed table binding ops store.documentation?
  warn warnings
  let generated ← ofExcept .emit result
  let target := Path.ofText (← required .output request.output)
  writeFile target (Utf8.encode (finalText generated.code request.license))
  sayIf request.verbose
    ("Generated " ++ Text.ofNat generated.report.emitted.length ++ " operations, skipped " ++
      Text.ofNat generated.report.skipped.length)
  sayIf request.verbose ("Generated: " ++ target.text)
  return generated.report

end TypedOps
