import TypedOps.Proofs.Script.Syntax

/-!
# `TypedOps.Proofs.Script.Run`: what the statements that bind outputs do

A method runs its statements in a `Scope`, which says what each name stands for. The things in
it are the operation just made, the graph it belongs to, what the caller gave, and what the
statements make of them: handles, counts, lists and named tuples. How many handles an output has
and which named tuples a graph offers is up to a `Runtime`.

Names are not compared as they are written. An identifier stands for its normal form, and one that
begins with two low lines is private to the class around it, so statements are run once each name
has been replaced by its `NormalForm.key`. The normal form is a parameter: nothing is said of it but
that ASCII texts are normal.

Running ends without a result where a name stands for nothing, or for a thing of the wrong
kind, or where `__debug__` is assigned to.

* `execute_assign` and its kin run one statement forward, `execute_assign_iff` and its kin say what
  must be so if a run goes on behind one.
* `executeLines_map_written`: lines that are the texts of statements run as these do.
-/

set_option autoImplicit false

namespace TypedOps.Script

/-! ### Identifiers -/

/-- The normal form of identifiers, as a parameter of all that looks names up. All that is asked of
it is `of_ascii`: ASCII texts are normal already. -/
structure NormalForm where
  of : Text → Text
  of_ascii : ∀ {x : Text}, (∀ c ∈ x, c.toNat < 128) → of x = x

/-- The `NormalForm` that leaves every text as it is. On ASCII texts there is no other. -/
def NormalForm.plain : NormalForm where
  of x := x
  of_ascii _ := rfl

/-- What an identifier is called inside a class: one that begins with two low lines, and does not
end with two, gets the name of the class, `container`, in front. -/
def mangled (container x : Text) : Text :=
  if ("__" : Text) <+: x ∧ ¬("__" : Text) <:+ x then '_' :: container.dropWhile (· = '_') ++ x
  else x

/-- What a name that is written inside a class is looked up by: its normal form, `mangled` by the
class. -/
def NormalForm.key (N : NormalForm) (container x : Text) : Text := mangled container (N.of x)

/-- An ASCII name that does not begin with two low lines is its own `key`. -/
theorem NormalForm.key_eq_self (N : NormalForm) (container : Text) {x : Text}
    (hascii : ∀ c ∈ x, c.toNat < 128) (hpublic : ¬("__" : Text) <+: x) :
    N.key container x = x := by
  rw [key, N.of_ascii hascii, mangled, if_neg fun h => hpublic h.1]

/-! ### Things and scopes -/

/-- What a name can stand for in the body of a method, in a `Scope`. -/
inductive Object where
  /-- What a function gives that returns nothing. -/
  | nothing
  /-- The operation that the method has made. -/
  | operation
  /-- The graph that the method belongs to. -/
  | graph
  /-- The type of handles. -/
  | outputType
  /-- The type of ranges. -/
  | rangeType
  /-- What the caller gave for a parameter: a handle, a list of them or the value of an attribute,
  none of which can be called. -/
  | given
  | number (n : Nat)
  | text (t : Text)
  /-- The numbers below a bound. -/
  | range (n : Nat)
  /-- The output of the operation at an index. -/
  | handle (index : Nat)
  | list (items : List Object)
  /-- A named tuple: the name of its type, and its fields with their values. -/
  | record (type : Text) (fields : List (Text × Object))

/-- The sum of two objects that are numbers. Nothing else can be added to an `Object`. -/
def Object.plus? : Object → Object → Option Object
  | .number m, .number n => some (.number (m + n))
  | _, _ => none

/-- What the names in a method stand for, each an `Object` or nothing. -/
abbrev Scope := Text → Option Object

/-- The scope in which `x` stands for `v`, and every other name for what it did. -/
def Scope.bind (s : Scope) (x : Text) (v : Object) : Scope := fun y => if y = x then some v else s y

/-- A name stands behind `bind` for what it is bound to. -/
@[simp] theorem Scope.bind_self (s : Scope) (x : Text) (v : Object) : s.bind x v x = some v :=
  if_pos rfl

/-- A name other than the one that is bound stands behind `bind` for what it did before. -/
theorem Scope.bind_of_ne (s : Scope) (v : Object) {x y : Text} (h : y ≠ x) :
    s.bind x v y = s y :=
  if_neg h

/-- A name that cannot be assigned to in any `Scope`. -/
def fixedName : Text := "__debug__"

/-- The scope in which `x` has been assigned the value `v`, unless `x` is the `fixedName`. -/
def Scope.assign? (s : Scope) (x : Text) (v : Object) : Option Scope :=
  if x = fixedName then none else some (s.bind x v)

/-- A name that a named tuple takes as a field: it has no low line in front and is none of the
`keywords`. -/
def IsField (x : Text) : Prop := x.head? ≠ some '_' ∧ x ∉ Naming.keywords

instance (x : Text) : Decidable (IsField x) :=
  inferInstanceAs (Decidable (x.head? ≠ some '_' ∧ x ∉ Naming.keywords))

/-- The fields of a named tuple that is declared with the given names: a name declared twice is one
field, and a name that is no `IsField` spoils the declaration. -/
def tupleFields? (names : List Text) : Option (List Text) :=
  if ∀ x ∈ names, IsField x then some names.eraseDups else none

/-- Distinct names are all fields of their own for `tupleFields?`. -/
theorem tupleFields?_eq_some {names : List Text} (hfields : ∀ x ∈ names, IsField x)
    (hdistinct : names.Nodup) : tupleFields? names = some names := by
  rw [tupleFields?, if_pos hfields, eraseDups_of_nodup hdistinct]

/-- What the operation and the graph know while the statements are run by `execute`. -/
structure Runtime where
  /-- How many handles an output of the operation has that is a list. -/
  listLength : Text → Nat
  /-- The fields of a named tuple that the graph offers. -/
  fields? : Text → Option (List Text)

/-! ### Running -/

/-- What an `Operand` stands for, if its names stand for anything and its sums are of numbers. -/
def Operand.eval (s : Scope) : Operand → Option Object
  | name x => s x
  | number n => some (.number n)
  | text t => some (.text t)
  | sum x y => do (← s x).plus? (← s y)

/-- What an `Object` gives that is called as a function: a type makes a thing of its kind. -/
def Object.applied? : Object → List Object → Option Object
  | .outputType, [.operation, .number index] => some (.handle index)
  | .rangeType, [.number n] => some (.range n)
  | _, _ => none

/-- What a method of an `Object` gives: the operation tells the length of a list, and a graph makes
a named tuple with a value for each field. -/
def Object.callMethod? (r : Runtime) (method : Text) : Object → List Object → Option Object
  | .operation, [.text output] =>
    if method = "get_output_list_length" then some (.number (r.listLength output)) else none
  | .graph, values => do
    let fields ← r.fields? method
    if fields.length = values.length then some (.record method (fields.zip values)) else none
  | _, _ => none

/-- What a `Call` gives, of a function or of a method behind a full stop. -/
def Call.eval (r : Runtime) (s : Scope) (c : Call) : Option Object := do
  match c.receiver? with
  | none => (← s c.function).applied? (← c.operands.mapM (·.eval s))
  | some x => (← s x).callMethod? r c.function (← c.operands.mapM (·.eval s))

section
variable {r : Runtime} {s : Scope} {operands : List Operand} {values : List Object}

/-- A function is applied by `eval` to what its operands stand for. -/
theorem Call.eval_function {f : Text} {thing : Object} (hf : s f = some thing)
    (h : operands.map (·.eval s) = values.map some) :
    Call.eval r s ⟨none, f, operands⟩ = thing.applied? values := by
  simp only [Call.eval, hf, mapM_eq_some_iff.mpr h, Option.bind_eq_bind, Option.bind_some]

/-- A method is called by `eval` on the thing that has it, with what the operands stand for. -/
theorem Call.eval_method {x f : Text} {thing : Object} (hx : s x = some thing)
    (h : operands.map (·.eval s) = values.map some) :
    Call.eval r s ⟨some x, f, operands⟩ = thing.callMethod? r f values := by
  simp only [Call.eval, hx, mapM_eq_some_iff.mpr h, Option.bind_eq_bind, Option.bind_some]

end

/-- What an `Expr` gives. The name that counts through a range is bound only inside the list. -/
def Expr.eval (r : Runtime) (s : Scope) : Expr → Option Object
  | operand o => o.eval s
  | call c => c.eval r s
  | collect item x source => do
    match ← source.eval r s with
    | .range n =>
      ((List.range n).mapM fun i => item.eval r (s.bind x (.number i))).map Object.list
    | _ => none

/-- Run statements up to the one that returns, each in the `Scope` that those before it leave: the
scope at the end, and the result. -/
def execute (r : Runtime) : Scope → List Statement → Option (Scope × Object)
  | s, [] => some (s, .nothing)
  | s, .assign x e :: rest => do execute r (← s.assign? x (← e.eval r s)) rest
  | s, .increase x o :: rest => do
    execute r (← s.assign? x (← (← s x).plus? (← o.eval s))) rest
  | s, .give e :: _ => do return (s, ← e.eval r s)

section
variable {r : Runtime} {s : Scope} {x : Text} {e : Expr} {o : Operand} {rest : List Statement}
  {out : Scope × Object}

/-- To `execute` an assignment goes on with the value bound to its name. -/
theorem execute_assign {v : Object} (hx : x ≠ fixedName) (h : e.eval r s = some v)
    (rest : List Statement) :
    execute r s (.assign x e :: rest) = execute r (s.bind x v) rest := by
  rw [execute, h, Option.bind_eq_bind, Option.bind_some, Scope.assign?, if_neg hx,
    Option.bind_eq_bind, Option.bind_some]

/-- To `execute` an increase goes on with the sum bound to its name. -/
theorem execute_increase {m n : Nat} (hname : x ≠ fixedName) (hx : s x = some (.number m))
    (ho : o.eval s = some (.number n)) (rest : List Statement) :
    execute r s (.increase x o :: rest) = execute r (s.bind x (.number (m + n))) rest := by
  rw [execute, hx, ho]
  simp only [Option.bind_eq_bind, Option.bind_some, Object.plus?, Scope.assign?, if_neg hname]

/-- To `execute` a return ends with the value. What stands behind is not run. -/
theorem execute_give {v : Object} (h : e.eval r s = some v) (rest : List Statement) :
    execute r s (.give e :: rest) = some (s, v) := by
  rw [execute, h]
  rfl

/-- A run of `execute` that gets past an assignment could assign: the name takes a value, and there
is one. -/
theorem execute_assign_iff : execute r s (.assign x e :: rest) = some out ↔
    ∃ v, e.eval r s = some v ∧ x ≠ fixedName ∧ execute r (s.bind x v) rest = some out := by
  simp only [execute, Option.bind_eq_bind, Option.bind_eq_some_iff, Scope.assign?,
    Option.ite_none_left_eq_some, Option.some.injEq]
  constructor
  · rintro ⟨v, hv, s', ⟨hx, rfl⟩, hrest⟩
    exact ⟨v, hv, hx, hrest⟩
  · rintro ⟨v, hv, hx, hrest⟩
    exact ⟨v, hv, _, ⟨hx, rfl⟩, hrest⟩

/-- A run of `execute` that gets past an increase has assigned the name something. -/
theorem exists_of_execute_increase (h : execute r s (.increase x o :: rest) = some out) :
    ∃ v, execute r (s.bind x v) rest = some out := by
  simp only [execute, Option.bind_eq_bind, Option.bind_eq_some_iff, Scope.assign?,
    Option.ite_none_left_eq_some, Option.some.injEq] at h
  obtain ⟨_, -, _, -, v, -, s', ⟨-, rfl⟩, hrest⟩ := h
  exact ⟨v, hrest⟩

/-- A run of `execute` that ends with a return has the value that is returned. -/
theorem exists_of_execute_give (h : execute r s (.give e :: rest) = some out) :
    ∃ v, e.eval r s = some v ∧ out = (s, v) := by
  obtain ⟨v, hv, hout⟩ := Option.bind_eq_some_iff.mp h
  cases hout
  exact ⟨v, hv, rfl⟩

end

/-! ### Running lines -/

/-- The operand whose names are replaced by what `key` gives for them. -/
def Operand.keyed (key : Text → Text) : Operand → Operand
  | name x => name (key x)
  | number n => number n
  | text t => text t
  | sum x y => sum (key x) (key y)

/-- The call whose names are replaced by what `key` gives for them, the one behind the full stop,
too. -/
def Call.keyed (key : Text → Text) (c : Call) : Call :=
  ⟨c.receiver?.map key, key c.function, c.operands.map (·.keyed key)⟩

/-- The expression whose names are replaced by what `key` gives for them. -/
def Expr.keyed (key : Text → Text) : Expr → Expr
  | operand o => operand (o.keyed key)
  | call c => call (c.keyed key)
  | collect item x source => collect (item.keyed key) (key x) (source.keyed key)

/-- The statement whose names are replaced by what `key` gives for them. Texts in quotes stay as
they are. -/
def Statement.keyed (key : Text → Text) : Statement → Statement
  | assign x e => assign (key x) (e.keyed key)
  | increase x o => increase (key x) (o.keyed key)
  | give e => give (e.keyed key)

/-- Run lines of generated code: they are read as statements by `Statement.ofText?`, and `execute`
runs these by the keys of their names. -/
def executeLines (key : Text → Text) (r : Runtime) (s : Scope) (lines : List Text) :
    Option (Scope × Object) := do
  execute r s ((← lines.mapM Statement.ofText?).map (·.keyed key))

/-- The lines of statements with proper names are run by `executeLines` as the statements by their
keys. -/
theorem executeLines_map_written {program : List Statement} (h : ∀ st ∈ program, st.WellNamed)
    (key : Text → Text) (r : Runtime) (s : Scope) :
    executeLines key r s (program.map Statement.written) =
      execute r s (program.map (·.keyed key)) := by
  have hread : (program.map Statement.written).mapM Statement.ofText? = some program := by
    refine mapM_eq_some_iff.mpr ?_
    rw [List.map_map]
    exact List.map_congr_left fun st hst => Statement.ofText?_written (h st hst)
  rw [executeLines, hread, Option.bind_eq_bind, Option.bind_some]

end TypedOps.Script
