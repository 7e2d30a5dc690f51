import Mathlib.Data.List.Nodup
import TypedOps.Proofs.Emit.CodeLines
import TypedOps.Proofs.Emit.Unmapped

/-!
# `TypedOps.Proofs.Emit.ParameterNames`: which names a method declares

A catalog name becomes a parameter or a variable in one of three ways: it is replaced by
one that reads better, it gets a low line behind it, or it stays. All three lead into the
names that catalogs may use themselves, so two names can meet. `Naming.Clash` says in the
open which ones do.

* `Naming.parameter_eq_parameter_iff`: two names become one just when they clash.
* `Naming.parameter_not_mem_reserved`: no name becomes a keyword or one of the names that
  `bodyNames` keeps for the body.
* `Operation.map_declaredName_signatureParams`: the names that a signature declares, read
  off its text.
* `Operation.nodup_declaredName_iff`: the declared names and the output variables are
  distinct just when none of the catalog's names clash. The running names of the output
  section are not kept for the body, so an output may bear one.
-/

set_option autoImplicit false

namespace TypedOps

open Text

namespace Naming

/-- The names that no parameter may have: the `keywords` of the language, and the `bodyNames` kept
for the body. -/
def reservedNames : List Text := keywords ++ bodyNames

/-- The names that count handles where outputs are bound. They are not among the `reservedNames`. -/
def runningNames : List Text := ["_idx", "_n"]

/-- The name `s` is turned into `t`, another name, so that an argument called `t` would meet it. -/
def Clash (s t : Text) : Prop := (s, t) ∈ readableNames ∨ s ∈ reservedNames ∧ t = s ++ ['_']

instance (s t : Text) : Decidable (Clash s t) :=
  inferInstanceAs (Decidable ((s, t) ∈ readableNames ∨ s ∈ reservedNames ∧ t = s ++ ['_']))

/-! ### What becomes of a name -/

/-- A name with a more readable one gets it from `parameter`. -/
theorem parameter_of_mem_readableNames : ∀ e ∈ readableNames, parameter e.1 = e.2 := by
  decide

/-- A name is turned into another one by `Clash`, or it stays as it is, and then it is not reserved.
-/
theorem parameter_cases (s : Text) :
    Clash s (parameter s) ∨ parameter s = s ∧ s ∉ reservedNames := by
  rw [parameter]
  split
  · next readable hreadable =>
    obtain ⟨before, after, hentry, -⟩ := List.lookup_eq_some_iff.mp hreadable
    exact .inl (.inl (by simp [hentry]))
  · split
    · next hreserved =>
      simp only [Bool.or_eq_true, List.contains_iff_mem] at hreserved
      exact .inl (.inr ⟨List.mem_append.mpr hreserved, rfl⟩)
    · next hfree =>
      simp only [Bool.or_eq_true, List.contains_iff_mem] at hfree
      exact .inr ⟨rfl, fun hmem => hfree (List.mem_append.mp hmem)⟩

/-- The names that `parameter` turns into others: the `reservedNames`, and those that have a
readable replacement. -/
def turnedNames : List Text := reservedNames ++ readableNames.map Prod.fst

/-- A name that is none of the `turnedNames` stays as it is. -/
theorem parameter_eq_self {s : Text} (h : s ∉ turnedNames) : parameter s = s := by
  rcases parameter_cases s with (hmem | ⟨hmem, -⟩) | ⟨heq, -⟩
  · exact absurd (List.mem_append_right _ (List.mem_map_of_mem hmem)) h
  · exact absurd (List.mem_append_left _ hmem) h
  · exact heq

/-- None of the `turnedNames` ends in a low line, so a low line sets a name apart from all of them.
-/
theorem append_low_line_not_mem (s : Text) : s ++ ['_'] ∉ turnedNames := by
  have hlast : ∀ t ∈ turnedNames, t.getLast? ≠ some '_' := by decide +kernel
  exact fun hmem => hlast _ hmem List.getLast?_concat

/-- A name that the `readableNames` give is none of the `turnedNames`, so it is not turned any
further. -/
theorem readable_not_mem : ∀ e ∈ readableNames, e.2 ∉ turnedNames := by
  decide +kernel

/-- One of the `reservedNames` gets a low line behind it, also if it should have a more readable
name. -/
theorem parameter_of_mem_reservedNames {s : Text} (h : s ∈ reservedNames) :
    parameter s = s ++ ['_'] := by
  have hapart : ∀ e ∈ readableNames, e.1 ∉ reservedNames := by decide +kernel
  rcases parameter_cases s with (hmem | ⟨-, heq⟩) | ⟨-, hfree⟩
  · exact absurd h (hapart _ hmem)
  · exact heq
  · exact absurd h hfree

/-- A name is turned into the one that it clashes with, which shows that `Clash` says no more than
`parameter` does. -/
theorem Clash.parameter_eq {s t : Text} (h : Clash s t) : parameter s = t := by
  rcases h with hreadable | ⟨hreserved, rfl⟩
  · exact parameter_of_mem_readableNames _ hreadable
  · exact parameter_of_mem_reservedNames hreserved

/-- A name that is not empty gives a `parameter` that is not. -/
theorem parameter_ne_nil {name : Text} (h : name ≠ []) : parameter name ≠ [] := by
  have hreadable : ∀ e ∈ readableNames, e.2 ≠ [] := by decide
  rcases parameter_cases name with (hmem | ⟨-, heq⟩) | ⟨heq, -⟩
  · exact hreadable _ hmem
  · simp [heq]
  · rwa [heq]

/-- What a name is turned into by a `Clash` is not turned into anything else. -/
theorem Clash.parameter_target {s t : Text} (h : Clash s t) : parameter t = t := by
  rcases h with hmem | ⟨-, rfl⟩
  · exact parameter_eq_self (readable_not_mem _ hmem)
  · exact parameter_eq_self (append_low_line_not_mem s)

/-- By a `Clash` a name is turned into another one, so no name clashes with itself. -/
theorem Clash.ne {s t : Text} (h : Clash s t) : s ≠ t := by
  have hreadable : ∀ e ∈ readableNames, e.1 ≠ e.2 := by decide
  rcases h with hmem | ⟨-, rfl⟩
  · exact hreadable _ hmem
  · simp

/-- Two different names are not turned into one, so a `Clash` has one source. -/
theorem Clash.source_eq {s t u : Text} (hs : Clash s u) (ht : Clash t u) : s = t := by
  have hreadable : ∀ e ∈ readableNames, ∀ e' ∈ readableNames, e.2 = e'.2 → e.1 = e'.1 := by
    decide
  have happart : ∀ e ∈ readableNames, ∀ s ∈ reservedNames, e.2 ≠ s ++ ['_'] := by
    decide +kernel
  rcases hs with hs | ⟨hs, rfl⟩
  · rcases ht with ht | ⟨ht, rfl⟩
    · exact hreadable _ hs _ ht rfl
    · exact absurd rfl (happart _ hs t ht)
  · rcases ht with ht | ⟨ht, heq⟩
    · exact absurd rfl (happart _ ht s hs)
    · exact List.append_cancel_right heq

/-- Two names become one `parameter` just when they are one name or there is a `Clash`, in either
direction. -/
theorem parameter_eq_parameter_iff (s t : Text) :
    parameter s = parameter t ↔ s = t ∨ Clash s t ∨ Clash t s := by
  constructor
  · intro heq
    -- A name that `parameter` changes is told by its result, so either both stay, or both are
    -- changed, or one of them is changed to the other.
    rcases parameter_cases s with hs | ⟨hs, -⟩
    · rcases parameter_cases t with ht | ⟨ht, -⟩
      · rw [heq] at hs
        exact .inl (hs.source_eq ht)
      · rw [heq, ht] at hs
        exact .inr (.inl hs)
    · rcases parameter_cases t with ht | ⟨ht, -⟩
      · rw [← heq, hs] at ht
        exact .inr (.inr ht)
      · exact .inl (by rw [← hs, heq, ht])
  · rintro (rfl | h | h)
    · rfl
    · rw [h.parameter_eq, h.parameter_target]
    · rw [h.parameter_eq, h.parameter_target]

/-- Distinct names become distinct ones by `parameter` just when there is no `Clash` among them. -/
theorem nodup_map_parameter_iff {names : List Text} (h : names.Nodup) :
    (names.map parameter).Nodup ↔ ∀ s ∈ names, ∀ t ∈ names, ¬Clash s t := by
  rw [List.nodup_map_iff_inj_on h]
  constructor
  · intro hinj s hs t ht hclash
    exact hclash.ne (hinj s hs t ht ((parameter_eq_parameter_iff s t).mpr (.inr (.inl hclash))))
  · intro hfree s hs t ht heq
    rcases (parameter_eq_parameter_iff s t).mp heq with rfl | hclash | hclash
    · rfl
    · exact absurd hclash (hfree s hs t ht)
    · exact absurd hclash (hfree t ht s hs)

/-- No name becomes one of the `reservedNames`, since the low line or the more readable name sets it
apart. -/
theorem parameter_not_mem_reserved (s : Text) : parameter s ∉ reservedNames := by
  rcases parameter_cases s with (hmem | ⟨-, heq⟩) | ⟨heq, hfree⟩
  · exact fun hreserved => readable_not_mem _ hmem (List.mem_append_left _ hreserved)
  · rw [heq]
    exact fun hreserved => append_low_line_not_mem s (List.mem_append_left _ hreserved)
  · rw [heq]
    exact hfree

/-- A name becomes one of the `runningNames` just when it is one, as nothing is turned into a
running name. -/
theorem parameter_mem_runningNames_iff (s : Text) :
    parameter s ∈ runningNames ↔ s ∈ runningNames := by
  have hkept : ∀ s ∈ runningNames, s ∉ turnedNames := by decide
  have hreadable : ∀ e ∈ readableNames, e.2 ∉ runningNames := by decide
  have hlast : ∀ t ∈ runningNames, t.getLast? ≠ some '_' := by decide
  constructor
  · intro h
    rcases parameter_cases s with (hmem | ⟨-, heq⟩) | ⟨heq, -⟩
    · exact absurd h (hreadable _ hmem)
    · rw [heq] at h
      exact absurd List.getLast?_concat (hlast _ h)
    · rwa [heq] at h
  · intro h
    rwa [parameter_eq_self (hkept s h)]

/-- An identifier becomes an identifier by `parameter`, so parameters can stand in code. -/
theorem isIdentifier_parameter {s : Text} (h : IsIdentifier s) : IsIdentifier (parameter s) := by
  have hreadable : ∀ e ∈ readableNames, IsIdentifier e.2 := by decide
  rcases parameter_cases s with (hmem | ⟨-, heq⟩) | ⟨heq, -⟩
  · exact hreadable _ hmem
  · rw [heq]
    intro c hc
    rcases List.mem_append.mp hc with hc | hc
    · exact h c hc
    · exact .inr (.inl (List.mem_singleton.mp hc))
  · rwa [heq]

end Naming

open Naming (parameter Clash)

/-- The name that a parameter or a field declares: what stands in front of the colon in
`declaration`. -/
def declaredName (declaration : Text) : Text := declaration.takeWhile (· != ':')

/-- The `declaredName` of a declaration is the identifier that it begins with, whatever annotation
follows. -/
theorem declaredName_append {name : Text} (h : IsIdentifier name) (rest : Text) :
    declaredName (name ++ ':' :: rest) = name :=
  takeWhile_append_cons (h.not_mem (by decide)) rest

namespace Operation

/-- The catalog's names of what a caller gives: the inputs and the `parameterAttributes`, in the
order of the signature. -/
def givenNames (op : Operation) : List Text :=
  op.inputs.map (·.name) ++ op.parameterAttributes.map (·.name)

/-- The names of the fields that the named tuple of the outputs declares, each read off its line by
`declaredName`. -/
def declaredFields (op : Operation) : List Text :=
  (op.outputsClassBlock.drop 2).map fun line => declaredName line.text

/-- The `parameterAttributes`, required ones first, are all those that a caller gives, in another
order. -/
theorem parameterAttributes_perm (op : Operation) :
    op.parameterAttributes.Perm op.givenAttributes := by
  have hsplit := List.filter_append_perm (fun a : Attribute => a.hasDefault) op.givenAttributes
  exact List.perm_append_comm.trans hsplit

/-- Where the inputs and attributes of an operation have distinct names, so have the `givenNames`.
-/
theorem nodup_givenNames {op : Operation}
    (h : (op.inputs.map (·.name) ++ op.attributes.map (·.name)).Nodup) : op.givenNames.Nodup := by
  have hperm : op.givenNames.Perm
      (op.inputs.map (·.name) ++ op.givenAttributes.map (·.name)) :=
    (op.parameterAttributes_perm.map _).append_left _
  have hsub : (op.givenAttributes.map (·.name)).Sublist (op.attributes.map (·.name)) :=
    List.filter_sublist.map _
  exact hperm.nodup_iff.mpr (h.sublist (hsub.append_left _))

/-- The names that `signatureParams` declare, in order: the graph, what the caller gives, and the
name of the operation. -/
theorem map_declaredName_signatureParams {table : TypeTable} {op : Operation}
    {params : List Text} (hinputs : ∀ a ∈ op.inputs, IsIdentifier a.name)
    (hattributes : ∀ a ∈ op.attributes, IsIdentifier a.name)
    (h : op.signatureParams table = .ok params) :
    params.map declaredName =
      "self".toList :: op.givenNames.map parameter ++ ["name".toList] := by
  simp only [signatureParams, bind_eq_ok_iff] at h
  obtain ⟨required, hrequired, optional, hoptional, h⟩ := h
  cases h
  have hinput : (op.inputs.map fun a => parameter a.name ++ ": " ++ a.typeHint).map
      declaredName = op.inputs.map fun a => parameter a.name := by
    rw [List.map_map]
    refine List.map_congr_left fun a ha => ?_
    rw [Function.comp_apply, List.append_assoc]
    exact declaredName_append (Naming.isIdentifier_parameter (hinputs a ha)) _
  -- Whatever stands behind the colon, an attribute is declared by its name.
  have hattribute : ∀ (attrs : List Attribute) (after : Text) (declared : List Text),
      (∀ a ∈ attrs, a ∈ op.givenAttributes) →
      (attrs.mapM fun a => do
        return parameter a.name ++ ": " ++ (← op.attributeHint table a) ++ after) =
          .ok declared →
      declared.map declaredName = attrs.map fun a => parameter a.name := by
    intro attrs after declared hattrs hdeclared
    refine map_eq_map_of_mem_mapM (fun a ha param hparam => ?_) hdeclared
    obtain ⟨hint, -, hparam⟩ := (bind_eq_ok_iff _ _ _).mp hparam
    cases hparam
    have hname := hattributes a (List.mem_filter.mp (hattrs a ha)).1
    rw [List.append_assoc, List.append_assoc]
    exact declaredName_append (Naming.isIdentifier_parameter hname) _
  have hrequired := hattribute op.classification.required [] required
    (fun a ha => (List.mem_filter.mp ha).1) (by simpa using hrequired)
  have hoptional := hattribute op.classification.optional " | None = None" optional
    (fun a ha => (List.mem_filter.mp ha).1) hoptional
  have hself : ["self".toList].map declaredName = ["self".toList] := by decide
  have hname : ["name: str | None = None".toList].map declaredName = ["name".toList] := by decide
  simp only [List.map_append, hself, hinput, hrequired, hoptional, hname]
  simp only [givenNames, parameterAttributes, List.map_append, List.map_map, Function.comp_def,
    List.append_assoc, List.nil_append, List.cons_append]

/-- The `declaredFields` of the named tuple of several outputs are one for each of them, in order.
-/
theorem declaredFields_eq {op : Operation} (houtputs : ∀ a ∈ op.outputs, IsIdentifier a.name)
    (hseveral : 2 ≤ op.outputs.length) :
    op.declaredFields = op.outputs.map fun a => parameter a.name := by
  rw [declaredFields, outputsClassBlock]
  split
  · next hout => simp [hout] at hseveral
  · next hout => simp [hout] at hseveral
  · simp only [deeper, List.map_cons, List.singleton_append, List.drop_succ_cons, List.drop_zero,
      List.map_map]
    refine List.map_congr_left fun a ha => ?_
    simp only [Function.comp_apply, List.append_assoc]
    exact declaredName_append (Naming.isIdentifier_parameter (houtputs a ha)) _

/-- Take an operation whose inputs and attributes have distinct identifiers as names, and whose
outputs do. The names that the parameters of its method declare, each a `declaredName`, are distinct
just when no two of the catalog's names clash, and so are the variables of its outputs, which the
named tuple has as fields. None of them is a keyword or kept for the body. A running name of the
output section is among them just when the catalog has it. -/
theorem nodup_declaredName_iff (table : TypeTable) (op : Operation) (params : List Text)
    (hinputs : ∀ a ∈ op.inputs, IsIdentifier a.name)
    (hattributes : ∀ a ∈ op.attributes, IsIdentifier a.name)
    (houtputs : ∀ a ∈ op.outputs, IsIdentifier a.name)
    (hgiven : (op.inputs.map (·.name) ++ op.attributes.map (·.name)).Nodup)
    (hbound : (op.outputs.map (·.name)).Nodup) (h : op.signatureParams table = .ok params) :
    let given := op.givenNames
    let bound := op.outputs.map (·.name)
    params.map declaredName = "self".toList :: given.map parameter ++ ["name".toList] ∧
      ((params.map declaredName).Nodup ↔ ∀ s ∈ given, ∀ t ∈ given, ¬Clash s t) ∧
      (2 ≤ bound.length → op.declaredFields = bound.map parameter) ∧
      ((bound.map parameter).Nodup ↔ ∀ s ∈ bound, ∀ t ∈ bound, ¬Clash s t) ∧
      ∀ s ∈ given ++ bound, parameter s ∉ Naming.keywords ∧ parameter s ∉ Naming.bodyNames ∧
        (parameter s ∈ Naming.runningNames ↔ s ∈ Naming.runningNames) := by
  intro given bound
  have hdeclared := map_declaredName_signatureParams hinputs hattributes h
  have hdistinct : given.Nodup := nodup_givenNames hgiven
  have hfree := Naming.parameter_not_mem_reserved
  refine ⟨hdeclared, ?_, fun hseveral => ?_, Naming.nodup_map_parameter_iff hbound,
    fun s _ => ⟨fun hmem => hfree s (List.mem_append_left _ hmem),
      fun hmem => hfree s (List.mem_append_right _ hmem),
      Naming.parameter_mem_runningNames_iff s⟩⟩
  · -- The body keeps the first and the last name for itself, so nothing else is called so.
    have hkept : ∀ t ∈ Naming.bodyNames, t ∉ given.map parameter := by
      intro t ht hmem
      obtain ⟨s, -, rfl⟩ := List.mem_map.mp hmem
      exact hfree s (List.mem_append_right _ ht)
    have hfirst : "self".toList ∉ given.map parameter ++ ["name".toList] := by
      intro hmem
      rcases List.mem_append.mp hmem with hmem | hmem
      · exact hkept "self" (by decide) hmem
      · exact absurd hmem (by decide)
    have hlast : ∀ s ∈ given.map parameter, ∀ t ∈ ["name".toList], s ≠ t := by
      rintro s hs t ht rfl
      exact hkept s (List.mem_singleton.mp ht ▸ by decide) hs
    rw [hdeclared, ← Naming.nodup_map_parameter_iff hdistinct, List.cons_append, List.nodup_cons,
      List.nodup_append]
    exact ⟨fun hnodup => hnodup.2.1,
      fun hnodup => ⟨hfirst, hnodup, List.nodup_singleton _, hlast⟩⟩
  · rw [declaredFields_eq houtputs (by simpa [bound] using hseveral), List.map_map]
    rfl

/-- An operation with names of every kind: some read better under another name, some are reserved,
and the attribute `T` is inferred. -/
def gather : Operation where
  name := "Gather"
  inputs := [{ name := "params", typeAttr := "T" }, { name := "in" }]
  outputs := [{ name := "out" }, { name := "event" }]
  attributes :=
    [{ name := "T", tag := "type" }, { name := "ref", tag := "int", hasDefault := true },
      { name := "name", tag := "string" }]

/-- No two names of `gather` clash, so all that it declares is distinct. -/
theorem nodup_declaredName_iff_gather :
    ∃ params, gather.signatureParams TypeTable.standard = .ok params ∧
      params.map declaredName = ["self".toList, "parameters".toList, "in_".toList,
        "name_".toList, "reference".toList, "name".toList] ∧
      (params.map declaredName).Nodup ∧
      gather.declaredFields = ["output".toList, "event_".toList] ∧
      gather.declaredFields.Nodup := by
  obtain ⟨params, hparams⟩ : ∃ params,
      gather.signatureParams TypeTable.standard = .ok params := ⟨_, rfl⟩
  obtain ⟨hdeclared, hdistinct, hfields, hbound, -⟩ :=
    nodup_declaredName_iff TypeTable.standard gather params (by decide) (by decide) (by decide)
      (by decide) (by decide) hparams
  have hfields := hfields (by decide)
  refine ⟨params, hparams, hdeclared, hdistinct.mpr (by decide), hfields, ?_⟩
  rw [hfields]
  exact hbound.mpr (by decide)

/-- An operation with two inputs to which `parameter` gives one name, and an output with a running
name. -/
def advance : Operation where
  name := "Advance"
  inputs := [{ name := "out" }, { name := "output" }]
  outputs := [{ name := "_idx" }]

/-- The names of `advance` are distinct identifiers. Still its method declares one parameter twice,
and binding the output overwrites the count of handles. -/
theorem declaredName_advance :
    (∀ a ∈ advance.inputs ++ advance.outputs, IsIdentifier a.name) ∧
      (advance.inputs.map (·.name) ++ advance.attributes.map (·.name)).Nodup ∧
      (advance.outputs.map (·.name)).Nodup ∧
      (∃ params, advance.signatureParams TypeTable.standard = .ok params ∧
        params.map declaredName =
          ["self".toList, "output".toList, "output".toList, "name".toList] ∧
        ¬(params.map declaredName).Nodup) ∧
      parameter "_idx" ∈ Naming.runningNames ∧
      advance.outputsBlock.map (·.text) =
        ["_idx = 0".toList, "_idx = Output(op, _idx)".toList, "_idx += 1".toList] :=
  ⟨by decide, by decide, by decide, ⟨_, rfl, by decide, by decide⟩, by decide, by decide⟩

end Operation

end TypedOps
