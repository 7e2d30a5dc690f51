import TypedOps.Catalog.Construct
import TypedOps.Proofs.Catalog.Storable
import TypedOps.Proofs.Support.Except
import TypedOps.Run.Generator

/-!
# `TypedOps.Proofs.Catalog.RoundTrip`: catalogs made by hand are read back

Whatever is made by hand is storable: an integer is refused where it does not fit, and a
floating-point number is brought into its format. So a catalog made by hand, written in binary form,
decodes to the operations that were written, and their signatures are those that were given
(`binaryOperations_encode`). In particular the attributes with a default are those that were given
one, whether or not the default shows as a plain value.
-/

set_option autoImplicit false

namespace TypedOps.Catalog

/-! ### What is made is storable -/

/-- An integer that `storedInt` accepts has the bits of its field. -/
theorem fits_of_storedInt {bits : Nat} {v : Value} {i : Int} (h : storedInt bits v = .ok i) :
    MachineInt.fits bits i = true := by
  unfold storedInt at h
  split at h
  · split at h
    · next hfits =>
      cases h
      exact hfits
    · cases h
  · cases h

/-- A number that `storedFloat` gives is one of single precision, whichever plain value it is made
of. -/
theorem holds_of_storedFloat {v : Value} {x : Floating} (h : storedFloat v = .ok x) :
    Floating.Format.single.Holds x := by
  have hprecision : 0 < Floating.Format.single.precision := by decide
  unfold storedFloat at h
  split at h
  · cases h
    exact Floating.Format.convert_holds hprecision _
  · cases h
    exact Floating.Format.ofInt_holds hprecision _
  · split at h
    · cases h
    · cases h
      exact Floating.Format.convert_holds hprecision _
  · cases h

/-- The numbers of the element types in `DataType.named` have thirty-two bits. -/
theorem fits_of_mem_named : ∀ entry ∈ DataType.named, MachineInt.fits 32 entry.2 = true := by
  decide

/-- A number that `storedType` gives has thirty-two bits, also where it was given as a number and
not by name. -/
theorem fits_of_storedType {v : Value} {number : Int} (h : storedType v = .ok number) :
    MachineInt.fits 32 number = true := by
  unfold storedType at h
  split at h
  · next name =>
    unfold dataTypeNumber at h
    split at h
    · next hnumber =>
      cases h
      obtain ⟨entry, hfound, rfl⟩ := Option.map_eq_some_iff.mp hnumber
      exact fits_of_mem_named entry (List.mem_of_find?_eq_some hfound)
    · cases h
  · exact fits_of_storedInt h

/-- A shape that `storedShape` accepts is storable, each of its sizes being checked by `storedInt`.
-/
theorem Shape.storable_of_storedShape {v : Value} {s : Shape} (h : storedShape v = .ok s) :
    s.Storable := by
  unfold storedShape at h
  split at h
  · cases h
    exact fun d hd => nomatch hd
  · simp only [bind_eq_ok_iff] at h
    obtain ⟨items, -, sizes, hsizes, h⟩ := h
    cases h
    intro d hd
    obtain ⟨size, hsize, rfl⟩ := List.mem_map.mp hd
    obtain ⟨item, -, hitem⟩ := exists_of_mem_mapM hsizes hsize
    exact fits_of_storedInt hitem

/-- A list value without items is `Storable`. All members but one of a stored list are as empty as
here. -/
theorem ListValue.storable_empty : ListValue.Storable {} where
  ints := nofun
  floats := nofun
  types := nofun
  shapes := nofun

/-- What `storedList` gives is a storable list value: one member has items, and they were stored one
by one. -/
theorem ListValue.storable_of_storedList {tag element : Text} {items : List Value} {v : ListValue}
    (h : storedList tag element items = .ok v) : v.Storable := by
  -- The branches are those of `storedList`, one for each element tag, and each fills one member.
  unfold storedList at h
  split at h
  · obtain ⟨ints, hints, h⟩ := (bind_eq_ok_iff _ _ _).mp h
    cases h
    refine { storable_empty with ints := fun i hi => ?_ }
    obtain ⟨item, -, hitem⟩ := exists_of_mem_mapM hints hi
    exact fits_of_storedInt hitem
  split at h
  · obtain ⟨floats, hfloats, h⟩ := (bind_eq_ok_iff _ _ _).mp h
    cases h
    refine { storable_empty with floats := fun x hx => ?_ }
    obtain ⟨item, -, hitem⟩ := exists_of_mem_mapM hfloats hx
    exact holds_of_storedFloat hitem
  split at h
  · obtain ⟨bools, -, h⟩ := (bind_eq_ok_iff _ _ _).mp h
    cases h
    exact { storable_empty with }
  split at h
  · obtain ⟨strings, -, h⟩ := (bind_eq_ok_iff _ _ _).mp h
    cases h
    exact { storable_empty with }
  split at h
  · obtain ⟨types, htypes, h⟩ := (bind_eq_ok_iff _ _ _).mp h
    cases h
    refine { storable_empty with types := fun number hnumber => ?_ }
    obtain ⟨item, -, hitem⟩ := exists_of_mem_mapM htypes hnumber
    exact fits_of_storedType hitem
  split at h
  · obtain ⟨shapes, hshapes, h⟩ := (bind_eq_ok_iff _ _ _).mp h
    cases h
    refine { storable_empty with shapes := fun s hs => ?_ }
    obtain ⟨item, -, hitem⟩ := exists_of_mem_mapM hshapes hs
    exact Shape.storable_of_storedShape hitem
  split at h
  · cases h
    exact storable_empty
  · cases h

/-- An attribute value that `ofValue` gives for a plain value is storable, for every tag that it
knows. -/
theorem AttributeValue.storable_of_ofValue {v : Value} {tag : Text} {stored : AttributeValue}
    (h : ofValue v tag = .ok stored) : stored.Storable := by
  -- The branches are those of `ofValue`. Texts and truth values are storable whatever they are.
  unfold ofValue at h
  split at h
  · simp only [bind_eq_ok_iff] at h
    obtain ⟨items, -, list, hlist, h⟩ := h
    cases h
    exact ListValue.storable_of_storedList hlist
  split at h
  · obtain ⟨i, hi, rfl⟩ := (map_eq_ok_iff _ _ _).mp h
    exact fits_of_storedInt hi
  split at h
  · obtain ⟨x, hx, rfl⟩ := (map_eq_ok_iff _ _ _).mp h
    exact holds_of_storedFloat hx
  split at h
  · obtain ⟨b, -, rfl⟩ := (map_eq_ok_iff _ _ _).mp h
    trivial
  split at h
  · obtain ⟨content, -, rfl⟩ := (map_eq_ok_iff _ _ _).mp h
    trivial
  split at h
  · obtain ⟨number, hnumber, rfl⟩ := (map_eq_ok_iff _ _ _).mp h
    exact fits_of_storedType hnumber
  split at h
  · obtain ⟨s, hs, rfl⟩ := (map_eq_ok_iff _ _ _).mp h
    exact Shape.storable_of_storedShape hs
  · cases h

/-- A default that is given as a message already is a storable one (`AttributeValue.Storable`).
Plain values are checked when they are stored. -/
def GivenDefault.Storable : GivenDefault → Prop
  | .stored v => v.Storable
  | .absent | .value _ => True

/-- What `toStored` gives for a default is storable, whether the default was given as a message or
as a plain value. -/
theorem GivenDefault.storable_of_toStored {given : GivenDefault} (hgiven : given.Storable)
    {tag : Text} {v : AttributeValue} (h : given.toStored tag = .ok (some v)) : v.Storable := by
  unfold toStored at h
  split at h
  · cases h
  · cases h
  · obtain ⟨stored, hstored, hv⟩ := (map_eq_ok_iff _ _ _).mp h
    cases hv
    exact AttributeValue.storable_of_ofValue hstored
  · cases h
    exact hgiven

/-- An argument that `GivenArgument.definition` accepts is storable. -/
theorem ArgumentDef.storable_of_definition {given : GivenArgument} {a : ArgumentDef}
    (h : given.definition = .ok a) : a.Storable := by
  obtain ⟨type, htype, h⟩ := (bind_eq_ok_iff _ _ _).mp h
  cases h
  exact fits_of_storedType htype

/-- An attribute that `GivenAttribute.definition` accepts is storable if its default is. -/
theorem AttributeDef.storable_of_definition {given : GivenAttribute} {a : AttributeDef}
    (hgiven : given.default.Storable) (h : given.definition = .ok a) : a.Storable := by
  obtain ⟨stored, hstored, h⟩ := (bind_eq_ok_iff _ _ _).mp h
  cases h
  have hzero : MachineInt.fits 64 0 = true := by decide
  refine ⟨fun v hv => ?_, hzero, nofun⟩
  cases hv
  exact GivenDefault.storable_of_toStored hgiven hstored

/-- To `construct` a deprecation gives the version and explanation as they are, if the version fits
its field. -/
theorem Deprecation.construct_eq_ok {version : Int} {explanation : Text} {d : Deprecation}
    (h : construct version explanation = .ok d) :
    d = { version := version, explanation := explanation } ∧ d.Storable := by
  obtain ⟨stored, hstored, h⟩ := (bind_eq_ok_iff _ _ _).mp h
  have hfits := fits_of_storedInt hstored
  cases h
  simp only [storedInt] at hstored
  split at hstored
  · cases hstored
    exact ⟨rfl, hfits⟩
  · cases hstored

/-- What the `definition` of an operation is made of: each of its parts is the definition of the
part that is given. -/
structure GivenOperation.Makes (given : GivenOperation) (op : OperationDef) : Prop where
  name : op.name = given.name
  inputs : given.inputs.mapM GivenArgument.definition = .ok op.inputs
  outputs : given.outputs.mapM GivenArgument.definition = .ok op.outputs
  attributes : given.attributes.mapM GivenAttribute.definition = .ok op.attributes
  summary : op.summary = given.summary
  description : op.description = given.description
  deprecation : op.deprecation =
    given.deprecation.map fun d => { version := d.1, explanation := d.2 }
  deprecation_storable : ∀ d, op.deprecation = some d → d.Storable

/-- An operation that `GivenOperation.definition` accepts is made part by part. -/
theorem GivenOperation.makes_of_definition {given : GivenOperation} {op : OperationDef}
    (h : given.definition = .ok op) : given.Makes op := by
  simp only [definition, bind_eq_ok_iff] at h
  obtain ⟨inputs, hinputs, outputs, houtputs, attributes, hattributes, h⟩ := h
  -- A deprecation is the one part that is made within `construct` itself.
  unfold OperationDef.construct at h
  cases hdeprecation : given.deprecation with
  | none =>
    rw [hdeprecation] at h
    cases h
    exact ⟨rfl, hinputs, houtputs, hattributes, rfl, rfl, by rw [hdeprecation]; rfl, nofun⟩
  | some deprecated =>
    rw [hdeprecation] at h
    obtain ⟨stored, hstored, h⟩ := (bind_eq_ok_iff _ _ _).mp h
    obtain ⟨d, hd, rfl⟩ := (map_eq_ok_iff _ _ _).mp hstored
    obtain ⟨rfl, hstorable⟩ := Deprecation.construct_eq_ok hd
    cases h
    refine ⟨rfl, hinputs, houtputs, hattributes, rfl, rfl, by rw [hdeprecation]; rfl, ?_⟩
    intro d hd
    cases hd
    exact hstorable

/-- An operation that `GivenOperation.definition` accepts is storable if its stored defaults are. -/
theorem OperationDef.storable_of_definition {given : GivenOperation} {op : OperationDef}
    (hgiven : ∀ a ∈ given.attributes, a.default.Storable) (h : given.definition = .ok op) :
    op.Storable := by
  have hmakes := GivenOperation.makes_of_definition h
  constructor
  · intro a ha
    obtain ⟨x, -, hx⟩ := exists_of_mem_mapM hmakes.inputs ha
    exact ArgumentDef.storable_of_definition hx
  · intro a ha
    obtain ⟨x, -, hx⟩ := exists_of_mem_mapM hmakes.outputs ha
    exact ArgumentDef.storable_of_definition hx
  · intro a ha
    obtain ⟨x, hmem, hx⟩ := exists_of_mem_mapM hmakes.attributes ha
    exact AttributeDef.storable_of_definition (hgiven x hmem) hx
  · exact hmakes.deprecation_storable

/-! ### The signatures that are given -/

/-- Whether a default is given. The value `nothing` is none, but a stored value is one, also when
nothing is set in it. -/
def GivenDefault.isGiven : GivenDefault → Bool
  | .absent | .value .nothing => false
  | .value _ | .stored _ => true

/-- The plain value of what is stored for a default, or `nothing` where nothing is stored. -/
def GivenDefault.plain (given : GivenDefault) (tag : Text) : Value :=
  match given.toStored tag with
  | .ok (some v) => v.plain
  | .ok none | .error _ => .nothing

/-- The signature of an attribute as it is given, to compare with that of the `AttributeDef` made of
it. -/
def GivenAttribute.signature (given : GivenAttribute) : Attribute where
  name := given.name
  tag := given.tag
  hasDefault := given.default.isGiven
  defaultValue := given.default.plain given.tag
  description := given.description

/-- The signature of an operation as it is given, to compare with that of the `OperationDef` made of
it. -/
def GivenOperation.signature (given : GivenOperation) : Operation where
  name := given.name
  inputs := given.inputs.map (·.argument)
  outputs := given.outputs.map (·.argument)
  attributes := given.attributes.map GivenAttribute.signature
  summary := given.summary
  description := given.description
  deprecationVersion := (given.deprecation.map (·.1)).getD 0
  deprecationExplanation := (given.deprecation.map (·.2)).getD []

/-- Something is stored for a default exactly where `isGiven` says that one is given. -/
theorem GivenDefault.isSome_of_toStored {given : GivenDefault} {tag : Text}
    {stored : Option AttributeValue} (h : given.toStored tag = .ok stored) :
    stored.isSome = given.isGiven := by
  cases given with
  | absent =>
    cases h
    rfl
  | stored v =>
    cases h
    rfl
  | value v =>
    cases v with
    | nothing =>
      cases h
      rfl
    | _ =>
      obtain ⟨s, -, rfl⟩ := (map_eq_ok_iff _ _ _).mp h
      rfl

/-- The `definition` of an argument has the signature of the argument that is given. -/
theorem ArgumentDef.signature_of_definition {given : GivenArgument} {a : ArgumentDef}
    (h : given.definition = .ok a) : a.signature = given.argument := by
  obtain ⟨type, -, h⟩ := (bind_eq_ok_iff _ _ _).mp h
  cases h
  rfl

/-- The `definition` of an attribute has the signature of the attribute that is given, with the
default as it is stored. -/
theorem AttributeDef.signature_of_definition {given : GivenAttribute} {a : AttributeDef}
    (h : given.definition = .ok a) : a.signature = given.signature := by
  obtain ⟨stored, hstored, h⟩ := (bind_eq_ok_iff _ _ _).mp h
  cases h
  have hgiven := GivenDefault.isSome_of_toStored hstored
  have hplain : (stored.map AttributeValue.plain).getD .nothing =
      given.default.plain given.tag := by
    rw [GivenDefault.plain, hstored]
    cases stored <;> rfl
  rw [GivenAttribute.signature, ← hgiven, ← hplain]
  rfl

/-- The `definition` of an operation has the signature of the operation that is given, part by part.
-/
theorem OperationDef.signature_of_definition {given : GivenOperation} {op : OperationDef}
    (h : given.definition = .ok op) : op.signature = given.signature := by
  have hmakes := GivenOperation.makes_of_definition h
  have hinputs := map_eq_map_of_mapM ArgumentDef.signature_of_definition hmakes.inputs
  have houtputs := map_eq_map_of_mapM ArgumentDef.signature_of_definition hmakes.outputs
  have hattributes := map_eq_map_of_mapM AttributeDef.signature_of_definition hmakes.attributes
  rw [signature, GivenOperation.signature, hmakes.name, hinputs, houtputs, hattributes,
    hmakes.summary, hmakes.description, hmakes.deprecation, Option.map_map, Option.map_map]
  rfl

/-! ### Catalogs are read back -/

/-- A catalog of operations made by hand, written in binary form by `encode`, is decoded without a
fault. The signatures of what is decoded are those of the operations that were written, in their
order, and these are the signatures that were given: an attribute has a default exactly if one was
given. Five bytes have to be enough for the lengths of what is written, as they are up to thirty-two
gigabytes. -/
theorem binaryOperations_encode {given : List GivenOperation} {definitions : List OperationDef}
    (hmade : given.mapM GivenOperation.definition = .ok definitions)
    (hstored : ∀ op ∈ given, ∀ a ∈ op.attributes, a.default.Storable)
    (hlength : (encode definitions).length < Wire.lengthLimit) :
    ∃ decoded, binaryOperations (encode definitions) = .ok decoded ∧
      signatures decoded = signatures definitions ∧
      signatures decoded = given.map GivenOperation.signature := by
  have hstorable : ∀ op ∈ definitions, op.Storable := by
    intro op hop
    obtain ⟨x, hmem, hx⟩ := exists_of_mem_mapM hmade hop
    exact OperationDef.storable_of_definition (hstored x hmem) hx
  refine ⟨definitions, ?_, rfl, map_eq_map_of_mapM OperationDef.signature_of_definition hmade⟩
  rw [binaryOperations, decode?_encode hstorable hlength]

/-- An operation with defaults of several kinds: an element type by name, an empty list, a negative
integer, a number without a finite binary form, and a shape of unknown rank. -/
def padding : GivenOperation where
  name := "Pad"
  inputs :=
    [{ argument := { name := "x", typeAttr := "T", description := "Größe" } },
      { argument := { name := "y" }, dataType := .text "DT_INT32" }]
  attributes :=
    [{ name := "T", tag := "type", default := .value (.text "DT_FLOAT") },
      { name := "pads", tag := "list(int)", default := .value (.list []) },
      { name := "axis", tag := "int", default := .value (.int (-1)) },
      { name := "scale", tag := "float",
        default := .value (.float (.finite false 3602879701896397 (-55))) },
      { name := "shape", tag := "shape", default := .stored (.shape { unknownRank := true }) },
      { name := "mode", tag := "string" }]
  deprecation := some (12, "Use PadV2")

theorem binaryOperations_encode_padding :
    ∃ definitions, [padding].mapM GivenOperation.definition = .ok definitions ∧
      (∀ op ∈ [padding], ∀ a ∈ op.attributes, a.default.Storable) ∧
      (encode definitions).length < Wire.lengthLimit ∧
      ∃ decoded, binaryOperations (encode definitions) = .ok decoded ∧
        signatures decoded = signatures definitions ∧
        signatures decoded = [padding].map GivenOperation.signature := by
  have hstored : ∀ op ∈ [padding], ∀ a ∈ op.attributes, a.default.Storable := by
    simp [padding, GivenDefault.Storable, AttributeValue.Storable, Shape.Storable]
  have hmade : ∃ definitions, [padding].mapM GivenOperation.definition = .ok definitions ∧
      (encode definitions).length < Wire.lengthLimit := ⟨_, rfl, by decide +kernel⟩
  obtain ⟨definitions, hmade, hlength⟩ := hmade
  exact ⟨definitions, hmade, hstored, hlength, binaryOperations_encode hmade hstored hlength⟩

example : padding.signature.attributes.map (·.hasDefault) =
    [true, true, true, true, true, false] := rfl

end TypedOps.Catalog
