import TypedOps.Proofs.Emit.ParameterNames
import TypedOps.Proofs.Script.Run

/-!
# `TypedOps.Proofs.Emit.Handles`: variables for the handles of an operation

The end of a method counts the handles of the operation in a running index and binds a variable for
each output. `bindStatements` are the statements for one output; under what name its variable is
bound is left open here, since a name is written in one way and looked up in another.

`Binds` says what running the statements for some outputs comes to, when `k` handles come
before them: the running index has grown by the handles of all of them, each variable stands
for its handles, and other names stand for what they did.

* `binds_bindStatements` and `binds_flatMap`: one output, whether it is a list or not, and any
  number of them, by induction. This is where the variables must be distinct and must be none of the
  names that the statements use themselves.
* `unhindered_of_execute_flatMap`: the other way round, if a run gets past the statements, nothing
  was in their way (`Unhindered`): no name that they use had been given to a parameter.
-/

set_option autoImplicit false

namespace TypedOps

open Naming (parameter)
open Script
open Text

/-! ### Handles of outputs -/

/-- How many handles an output has: the length of its list, as `lengths` gives it, or one. -/
def Argument.size (lengths : Text → Nat) (a : Argument) : Nat :=
  if a.isList then lengths a.name else 1

/-- What the variable of an output is to stand for when `k` handles come before it: a list of
handles, or one handle. -/
def Argument.bound (lengths : Text → Nat) (k : Nat) (a : Argument) : Object :=
  if a.isList then .list ((List.range (lengths a.name)).map fun i => .handle (k + i))
  else .handle k

/-- How many handles some outputs have together, as the sum of `Argument.size` over them. -/
def totalSize (lengths : Text → Nat) (outs : List Argument) : Nat :=
  (outs.map (Argument.size lengths)).sum

/-- What the variables of some outputs are to stand for when `k` handles come before them, one
`Argument.bound` after the other. -/
def boundValues (lengths : Text → Nat) (k : Nat) : List Argument → List Object
  | [] => []
  | a :: outs => a.bound lengths k :: boundValues lengths (k + a.size lengths) outs

/-- The index of a handle, if the `Object` is one. -/
def Script.Object.index? : Object → Option Nat
  | .handle index => some index
  | _ => none

/-- The indices of the handles that a variable stands for, of one handle or of a list of them, by
`Object.index?`. -/
def Script.Object.indices : Object → List Nat
  | .list items => items.filterMap Object.index?
  | o => o.index?.toList

section
variable (lengths : Text → Nat)

/-- In `totalSize`, the handles of the first output are counted in front of those of the rest. -/
theorem totalSize_cons (a : Argument) (outs : List Argument) :
    totalSize lengths (a :: outs) = a.size lengths + totalSize lengths outs := by
  simp [totalSize]

/-- Among the `boundValues`, an output in the middle is to stand for the handles behind those of the
outputs before it. -/
theorem boundValues_append_cons (k : Nat) (before : List Argument) (a : Argument)
    (after : List Argument) : ∃ behind,
      boundValues lengths k (before ++ a :: after) =
        boundValues lengths k before ++ a.bound lengths (k + totalSize lengths before) :: behind ∧
      (boundValues lengths k before).length = before.length := by
  induction before generalizing k with
  | nil => exact ⟨_, rfl, rfl⟩
  | cons b before ih =>
    obtain ⟨behind, hvalues, hlength⟩ := ih (k + b.size lengths)
    refine ⟨behind, ?_, by simp [boundValues, hlength]⟩
    rw [List.cons_append, boundValues, hvalues, totalSize_cons, ← Nat.add_assoc]
    rfl

/-- The indices of the handles of an output are those from `k` on, as many as its size says. -/
theorem indices_bound (k : Nat) (a : Argument) :
    (a.bound lengths k).indices = List.range' k (a.size lengths) := by
  rw [Argument.bound, Argument.size]
  split
  · have hindex : Object.index? ∘ (fun i => Object.handle (k + i)) = some ∘ (k + ·) := rfl
    rw [Object.indices, List.filterMap_map, hindex, List.filterMap_eq_map,
      List.range'_eq_map_range]
  · rfl

/-- The `indices` of all handles together are consecutive, so no handle is bound twice and none is
left out. -/
theorem flatMap_indices_boundValues (k : Nat) (outs : List Argument) :
    (boundValues lengths k outs).flatMap Object.indices =
      List.range' k (totalSize lengths outs) := by
  induction outs generalizing k with
  | nil => rfl
  | cons a outs ih =>
    rw [boundValues, List.flatMap_cons, indices_bound, ih, totalSize_cons,
      List.range'_append_1]

end

/-! ### The statements for one output -/

/-- The call that makes the handle of the operation at an index. It takes two of the names that the
rest of the method provides, the type of handles and the operation. -/
def handleCall (index : Operand) : Call := ⟨none, "Output", [.name "op", index]⟩

/-- The statements that bind the variable `x` for an output, and count its handles in the running
index. -/
def bindStatements (x : Text) (a : Argument) : List Statement :=
  if a.isList then
    [.assign "_n" (.call ⟨some "op", "get_output_list_length", [.text a.name]⟩),
      .assign x (.collect (handleCall (.sum "_idx" "i")) "i" ⟨none, "range", [.name "_n"]⟩),
      .increase "_idx" (.name "_n")]
  else
    [.assign x (.call (handleCall (.name "_idx"))), .increase "_idx" (.number 1)]

/-- The lines written for an output are the texts of `bindStatements` under the name of its
parameter. -/
theorem bindOutput_eq (a : Argument) :
    Operation.bindOutput a =
      (bindStatements (parameter a.name) a).map fun st => { text := st.written } := by
  rw [Operation.bindOutput, bindStatements]
  -- The fixed words are evaluated, and the names of the output stay as they are.
  cases a.isList with
  | false =>
    have hhandle : Call.written (handleCall (.name "_idx")) = "Output(op, _idx)" := by decide
    have hcount : Statement.written (.increase "_idx" (.number 1)) = "_idx += 1" := by decide
    simp only [Bool.false_eq_true, if_false, List.map_cons, List.map_nil, hcount,
      Statement.written_assign, Expr.written, hhandle]
    simp
  | true =>
    have hhandle : Call.written (handleCall (.sum "_idx" "i")) = "Output(op, _idx + i)" := by
      decide
    have hrange : Call.written ⟨none, "range", [.name "_n"]⟩ = "range(_n)" := by decide
    have hcount : Statement.written (.increase "_idx" (.name "_n")) = "_idx += _n" := by decide
    simp only [if_true, List.map_cons, List.map_nil, hcount,
      Statement.written_assign, Expr.written, hhandle, hrange]
    rw [Call.written, Call.front, Call.callee]
    repeat rw [String.toList_ofList]
    simp [Operand.written, join]

/-! ### Names that the statements use -/

/-- The names that `bindStatements` uses as the rest of the method left them. -/
def providedNames : List Text := ["op", "self", "Output", "range"]

/-- All names that the statements use themselves: the `runningNames` and the `providedNames`. -/
def usedNames : List Text := Naming.runningNames ++ providedNames

/-- For the given outputs, the `providedNames` stand for what they do in a method. Where there is no
output, or none that is a list, it does not matter what the types stand for. -/
structure Script.Scope.Provides (s : Scope) (outs : List Argument) : Prop where
  operation : s "op" = some .operation
  graph : s "self" = some .graph
  outputType : outs ≠ [] → s "Output" = some .outputType
  rangeType : ∀ a ∈ outs, a.isList = true → s "range" = some .rangeType

namespace Script.Scope.Provides

variable {s s' : Scope} {outs : List Argument}

/-- A scope provides for the outputs if it takes the `providedNames` from one that does. -/
theorem of_eq (hs : s.Provides outs) (h : ∀ x ∈ providedNames, s' x = s x) :
    s'.Provides outs where
  operation := (h _ (by decide)).trans hs.operation
  graph := (h _ (by decide)).trans hs.graph
  outputType hne := (h _ (by decide)).trans (hs.outputType hne)
  rangeType a ha hlist := (h _ (by decide)).trans (hs.rangeType a ha hlist)

/-- Binding a variable that is none of the `providedNames` leaves them provided. -/
theorem bind (hs : s.Provides outs) {x : Text} (hx : x ∉ providedNames) (v : Object) :
    (s.bind x v).Provides outs := by
  refine hs.of_eq fun y hy => s.bind_of_ne v ?_
  rintro rfl
  exact hx hy

/-- What a scope `Provides` for some outputs it provides for those behind the first one. -/
theorem tail {a : Argument} (hs : s.Provides (a :: outs)) : s.Provides outs where
  operation := hs.operation
  graph := hs.graph
  outputType _ := hs.outputType (List.cons_ne_nil _ _)
  rangeType b hb := hs.rangeType b (List.mem_cons_of_mem a hb)

/-- What a scope `Provides` for some outputs it provides for none of them, where the types do not
matter. -/
theorem nil (hs : s.Provides outs) : s.Provides [] where
  operation := hs.operation
  graph := hs.graph
  outputType hne := absurd rfl hne
  rangeType _ ha := absurd ha List.not_mem_nil

end Script.Scope.Provides

/-- A name that is none of the `runningNames` is neither the index nor the length, as the two
assignments need it. -/
theorem ne_of_not_running {x : Text} (h : x ∉ Naming.runningNames) : x ≠ "_idx" ∧ x ≠ "_n" := by
  simpa [Naming.runningNames] using h

variable (v : Argument → Text)

/-- A scope that differs from one that `Provides` in other variables and the running names only
provides as well. -/
theorem Script.Scope.Provides.of_others {s s' : Scope} {outs outs' : List Argument}
    (hs : s.Provides outs')
    (hothers : ∀ x, x ∉ outs.map v → x ∉ Naming.runningNames → s' x = s x)
    (hfree : ∀ a ∈ outs, v a ∉ providedNames) : s'.Provides outs' := by
  have hapart : ∀ x ∈ providedNames, x ∉ Naming.runningNames := by decide
  refine hs.of_eq fun x hx => hothers x ?_ (hapart x hx)
  intro hmem
  obtain ⟨a, ha, rfl⟩ := List.mem_map.mp hmem
  exact hfree a ha hx

/-! ### Running them -/

/-- What running the statements for some outputs makes of a scope when `k` handles come before them.
This is what one step keeps and a whole run adds up. -/
structure Binds (lengths : Text → Nat) (k : Nat) (outs : List Argument) (s s' : Scope) : Prop where
  /-- The running index counts their handles, too. -/
  counted : s' "_idx" = some (.number (k + totalSize lengths outs))
  /-- Each variable stands for its handles. -/
  bound : outs.map (fun a => s' (v a)) = (boundValues lengths k outs).map some
  /-- Other names stand for what they did. -/
  others : ∀ x, x ∉ outs.map v → x ∉ Naming.runningNames → s' x = s x

variable {v}

section
variable {r : Runtime} {s : Scope} {k : Nat} {outs : List Argument}

/-- A call of the type of handles makes the handle at the index, if `Output` stands for that type.
-/
theorem eval_handleCall (hop : s "op" = some .operation) (hOutput : s "Output" = some .outputType)
    {index : Operand} {n : Nat} (h : index.eval s = some (.number n)) :
    (handleCall index).eval r s = some (.handle n) := by
  have hoperands : [Operand.name "op", index].map (·.eval s) =
      [Object.operation, .number n].map some := by
    simp only [List.map_cons, List.map_nil, h]
    exact congrArg (· :: _) hop
  rw [handleCall, Call.eval_function hOutput hoperands]
  rfl

/-- The length of an output that is a list is asked of the operation, and `eval` gives what the
runtime says. -/
theorem eval_lengthCall (hop : s "op" = some .operation) (a : Argument) :
    Expr.eval r s (.call ⟨some "op", "get_output_list_length", [.text a.name]⟩) =
      some (.number (r.listLength a.name)) := by
  have hoperands : [Operand.text a.name].map (·.eval s) = [Object.text a.name].map some := rfl
  rw [Expr.eval, Call.eval_method hop hoperands, Object.callMethod?, if_pos rfl]

/-- The list that is collected holds the handles from `k` on, if `range` and `Output` stand for
their types. -/
theorem eval_collect (hop : s "op" = some .operation) (hOutput : s "Output" = some .outputType)
    (hrange : s "range" = some .rangeType) (hk : s "_idx" = some (.number k)) {n : Nat}
    (hn : s "_n" = some (.number n)) :
    Expr.eval r s (.collect (handleCall (.sum "_idx" "i")) "i" ⟨none, "range", [.name "_n"]⟩) =
      some (.list ((List.range n).map fun i => .handle (k + i))) := by
  have hbound : [Operand.name "_n"].map (·.eval s) = [Object.number n].map some :=
    congrArg (· :: []) hn
  have hnumbers : Call.eval r s ⟨none, "range", [.name "_n"]⟩ = some (.range n) :=
    Call.eval_function hrange hbound
  -- The name `i` is bound inside the list, where the other three names stand for what they do
  -- outside.
  have hitem : ∀ i, (handleCall (.sum "_idx" "i")).eval r (s.bind "i" (.number i)) =
      some (.handle (k + i)) := by
    intro i
    refine eval_handleCall ?_ ?_ ?_
    · rw [Scope.bind_of_ne _ _ (by decide), hop]
    · rw [Scope.bind_of_ne _ _ (by decide), hOutput]
    · rw [Operand.eval, Scope.bind_self, Scope.bind_of_ne _ _ (by decide), hk]
      rfl
  have hitems : ((List.range n).mapM fun i =>
      (handleCall (.sum "_idx" "i")).eval r (s.bind "i" (.number i))) =
        some ((List.range n).map fun i => .handle (k + i)) := by
    refine mapM_eq_some_iff.mpr ?_
    rw [List.map_map]
    exact List.map_congr_left fun i _ => hitem i
  rw [Expr.eval, hnumbers, Option.bind_eq_bind, Option.bind_some]
  simp only [hitems, Option.map_some]

/-- One output is bound, in the sense of `Binds`, once its variable stands for its handles and the
index has grown by their number. -/
theorem binds_singleton {lengths : Text → Nat} {s s' : Scope} {a : Argument}
    (h : ∀ x, x ∉ Naming.runningNames → s' x = s x) (hfree : v a ∉ Naming.runningNames) :
    Binds v lengths k [a] s ((s'.bind (v a) (a.bound lengths k)).bind "_idx"
      (.number (k + a.size lengths))) where
  counted := Scope.bind_self ..
  bound := by
    rw [List.map_singleton, Scope.bind_of_ne _ _ (ne_of_not_running hfree).1, Scope.bind_self]
    rfl
  others := by
    intro x hx hrunning
    have hvariable : x ≠ v a := by simpa using hx
    rw [Scope.bind_of_ne _ _ (ne_of_not_running hrunning).1, Scope.bind_of_ne _ _ hvariable,
      h x hrunning]

/-- The `bindStatements` for one output bind its variable and count its handles. This is one step of
the run, by cases on whether the output is a list. -/
theorem binds_bindStatements {a : Argument} (hs : s.Provides (a :: outs))
    (hk : s "_idx" = some (.number k)) (hfree : v a ∉ Naming.runningNames)
    (hassigned : v a ≠ fixedName) (rest : List Statement) :
    ∃ s', execute r s (bindStatements (v a) a ++ rest) = execute r s' rest ∧
      Binds v r.listLength k [a] s s' := by
  obtain ⟨hidx, hn⟩ := ne_of_not_running hfree
  have hOutput := hs.outputType (List.cons_ne_nil _ _)
  have hindex : ("_idx" : Text) ≠ fixedName := by decide
  cases hlist : a.isList with
  | false =>
    have hbound : a.bound r.listLength k = .handle k := by simp [Argument.bound, hlist]
    have hsize : a.size r.listLength = 1 := by simp [Argument.size, hlist]
    have hhandle : Expr.eval r s (.call (handleCall (.name "_idx"))) =
        some (a.bound r.listLength k) := by
      rw [hbound]
      exact eval_handleCall (r := r) hs.operation hOutput hk
    have hcount : s.bind (v a) (a.bound r.listLength k) "_idx" = some (.number k) := by
      rw [Scope.bind_of_ne _ _ hidx.symm, hk]
    refine ⟨_, ?_, binds_singleton (fun _ _ => rfl) hfree⟩
    simp only [bindStatements, hlist, Bool.false_eq_true, if_false, List.cons_append,
      List.nil_append]
    rw [execute_assign hassigned hhandle, execute_increase hindex hcount rfl, hsize]
  | true =>
    -- The length is bound first, which leaves the index as it is.
    obtain ⟨n, hlength⟩ : ∃ n, r.listLength a.name = n := ⟨_, rfl⟩
    have hbound : a.bound r.listLength k =
        .list ((List.range n).map fun i => .handle (k + i)) := by
      simp [Argument.bound, hlist, hlength]
    have hsize : a.size r.listLength = n := by simp [Argument.size, hlist, hlength]
    have hcall := eval_lengthCall (r := r) hs.operation a
    rw [hlength] at hcall
    have hprovides := hs.bind (show "_n".toList ∉ providedNames by decide) (.number n)
    have hstart : s.bind "_n" (.number n) "_idx" = some (.number k) := by
      rw [Scope.bind_of_ne _ _ (by decide), hk]
    have hcollect := eval_collect (r := r) hprovides.operation
      (hprovides.outputType (List.cons_ne_nil _ _))
      (hprovides.rangeType a List.mem_cons_self hlist) hstart (Scope.bind_self ..)
    rw [← hbound] at hcollect
    have hcount : (s.bind "_n" (.number n)).bind (v a) (a.bound r.listLength k)
        "_idx" = some (.number k) := by
      rw [Scope.bind_of_ne _ _ hidx.symm, hstart]
    have hmore : Operand.eval ((s.bind "_n" (.number n)).bind (v a) (a.bound r.listLength k))
        (.name "_n") = some (.number n) := by
      rw [Operand.eval, Scope.bind_of_ne _ _ hn.symm, Scope.bind_self]
    have hothers : ∀ x, x ∉ Naming.runningNames → s.bind "_n" (.number n) x = s x := by
      intro x hrunning
      exact s.bind_of_ne _ (ne_of_not_running hrunning).2
    refine ⟨_, ?_, binds_singleton hothers hfree⟩
    simp only [bindStatements, hlist, if_true, List.cons_append, List.nil_append]
    rw [execute_assign (by decide) hcall, execute_assign hassigned hcollect,
      execute_increase hindex hcount hmore, hsize]

/-- Statements for one output, then for the others: `Binds` holds of both in a row. The second scope
has everything the first one bound, since names are distinct. -/
theorem Binds.cons {lengths : Text → Nat} {s s₁ s₂ : Scope} {a : Argument}
    (h₁ : Binds v lengths k [a] s s₁) (h₂ : Binds v lengths (k + a.size lengths) outs s₁ s₂)
    (hfree : v a ∉ Naming.runningNames) (hdistinct : v a ∉ outs.map v) :
    Binds v lengths k (a :: outs) s s₂ where
  counted := by rw [h₂.counted, totalSize_cons, Nat.add_assoc]
  bound := by
    -- Binding the rest leaves the first variable.
    have hfirst : s₁ (v a) = some (a.bound lengths k) := (List.cons.inj h₁.bound).1
    rw [List.map_cons, h₂.others _ hdistinct hfree, hfirst, h₂.bound]
    rfl
  others := by
    intro x hx hrunning
    rw [List.map_cons, List.mem_cons, not_or] at hx
    rw [h₂.others x hx.2 hrunning, h₁.others x (by simpa using hx.1) hrunning]

/-- The `bindStatements` for any outputs bind their variables, by induction over the outputs. -/
theorem binds_flatMap (hs : s.Provides outs) (hk : s "_idx" = some (.number k))
    (hfree : ∀ a ∈ outs, v a ∉ usedNames) (hassigned : ∀ a ∈ outs, v a ≠ fixedName)
    (hdistinct : (outs.map v).Nodup) (rest : List Statement) :
    ∃ s', execute r s (outs.flatMap (fun a => bindStatements (v a) a) ++ rest) =
      execute r s' rest ∧ Binds v r.listLength k outs s s' := by
  -- The scope and the number of handles so far change from output to output.
  induction outs generalizing s k with
  | nil => exact ⟨s, rfl, hk, rfl, fun _ _ _ => rfl⟩
  | cons a outs ih =>
    rw [List.map_cons, List.nodup_cons] at hdistinct
    have ha := hfree a List.mem_cons_self
    simp only [usedNames, List.mem_append, not_or] at ha
    obtain ⟨s₁, hrun₁, hbinds₁⟩ := binds_bindStatements (r := r) hs hk ha.1
      (hassigned a List.mem_cons_self)
      (outs.flatMap (fun a => bindStatements (v a) a) ++ rest)
    have hs₁ : s₁.Provides outs :=
      hs.tail.of_others v hbinds₁.others (List.forall_mem_singleton.mpr ha.2)
    have hk₁ : s₁ "_idx" = some (.number (k + a.size r.listLength)) := hbinds₁.counted
    obtain ⟨s₂, hrun₂, hbinds₂⟩ := ih hs₁ hk₁
      (fun b hb => hfree b (List.mem_cons_of_mem a hb))
      (fun b hb => hassigned b (List.mem_cons_of_mem a hb)) hdistinct.2
    refine ⟨s₂, ?_, hbinds₁.cons hbinds₂ ha.1 hdistinct.1⟩
    rw [List.flatMap_cons, List.append_assoc, hrun₁, hrun₂]

end

/-! ### What must not be in their way -/

/-- Nothing is in the way of the statements for some outputs: their variables can be assigned to,
and the types that they use have not been given to a parameter. A run that gets past
`bindStatements` shows at least this much. -/
structure Unhindered (v : Argument → Text) (lengths : Text → Nat) (outs : List Argument)
    (s : Scope) : Prop where
  assigned : ∀ a ∈ outs, v a ≠ fixedName
  outputType : ∀ a ∈ outs, a.size lengths ≠ 0 → s "Output" ≠ some .given
  rangeType : ∀ a ∈ outs, a.isList = true → s "range" ≠ some .given

section
variable {r : Runtime} {s : Scope}

/-- Where the caller's value stands under the name `Output`, a call of it makes no handle. -/
theorem eval_handleCall_of_given (h : s "Output" = some .given) (index : Operand) :
    (handleCall index).eval r s = none := by
  simp only [handleCall, Call.eval, h, Option.bind_eq_bind, Option.bind_some]
  exact Option.bind_eq_none_iff.mpr fun _ _ => rfl

/-- Where the caller's value stands under `range` no list is collected, and under `Output` none but
the empty one. -/
theorem eval_collect_of_given {n : Nat} (hn : s "_n" = some (.number n))
    (h : s "range" = some .given ∨ n ≠ 0 ∧ s "Output" = some .given) :
    Expr.eval r s (.collect (handleCall (.sum "_idx" "i")) "i" ⟨none, "range", [.name "_n"]⟩) =
      none := by
  have hoperands : [Operand.name "_n"].map (·.eval s) = [Object.number n].map some :=
    congrArg (· :: []) hn
  rw [Expr.eval]
  rcases h with hrange | ⟨hne, hOutput⟩
  · rw [Call.eval_function hrange hoperands]
    rfl
  cases hnumbers : Call.eval r s ⟨none, "range", [.name "_n"]⟩ with
  | none => rfl
  | some numbers =>
    rw [Option.bind_eq_bind, Option.bind_some]
    split
    · next m =>
      -- Only the type of ranges makes a range, and it makes that of the number.
      have hm : m = n := by
        obtain ⟨thing, hthing, -⟩ := Option.bind_eq_some_iff.mp hnumbers
        rw [Call.eval_function hthing hoperands] at hnumbers
        cases thing <;> simp_all [Object.applied?]
      obtain ⟨n', rfl⟩ := Nat.exists_eq_succ_of_ne_zero (hm ▸ hne)
      have hfirst : (handleCall (.sum "_idx" "i")).eval r (s.bind "i" (.number 0)) = none :=
        eval_handleCall_of_given ((s.bind_of_ne _ (by decide)).trans hOutput) _
      rw [List.range_succ_eq_map, List.mapM_cons, hfirst]
      rfl
    · rfl

variable {out : Scope × Object} {rest : List Statement}

/-- If a run gets past the `bindStatements` for one output, nothing was in their way, and the names
that they use stand for what they did. -/
theorem unhindered_of_execute_bindStatements {a : Argument} (hop : s "op" = some .operation)
    (hfree : v a ∉ usedNames)
    (h : execute r s (bindStatements (v a) a ++ rest) = some out) :
    Unhindered v r.listLength [a] s ∧
      ∃ s', execute r s' rest = some out ∧ ∀ y ∈ providedNames, s' y = s y := by
  have hvariable : ∀ y ∈ providedNames, y ≠ v a := by
    rintro y hy rfl
    exact hfree (List.mem_append_right _ hy)
  have hrunning : ∀ y ∈ providedNames, y ≠ "_idx" ∧ y ≠ "_n" := by decide
  cases hlist : a.isList with
  | false =>
    simp only [bindStatements, hlist, Bool.false_eq_true, if_false, List.cons_append,
      List.nil_append] at h
    obtain ⟨handle, hhandle, hassigned, h⟩ := execute_assign_iff.mp h
    obtain ⟨count, h⟩ := exists_of_execute_increase h
    refine ⟨⟨List.forall_mem_singleton.mpr hassigned, ?_, ?_⟩, _, h, fun y hy => ?_⟩
    · intro _ _ _ hgiven
      rw [Expr.eval, eval_handleCall_of_given hgiven] at hhandle
      cases hhandle
    · refine List.forall_mem_singleton.mpr fun htrue => ?_
      rw [hlist] at htrue
      cases htrue
    · rw [Scope.bind_of_ne _ _ (hrunning y hy).1, Scope.bind_of_ne _ _ (hvariable y hy)]
  | true =>
    simp only [bindStatements, hlist, if_true, List.cons_append, List.nil_append] at h
    obtain ⟨length, hlength, -, h⟩ := execute_assign_iff.mp h
    rw [eval_lengthCall hop, Option.some_inj] at hlength
    subst hlength
    obtain ⟨items, hitems, hassigned, h⟩ := execute_assign_iff.mp h
    obtain ⟨count, h⟩ := exists_of_execute_increase h
    -- Both types are looked up in the scope in which the length is bound.
    have hkept : ∀ y ∈ providedNames,
        s.bind "_n" (.number (r.listLength a.name)) y = s y := fun y hy =>
      s.bind_of_ne _ (hrunning y hy).2
    have hnot : ¬(s.bind "_n" (.number (r.listLength a.name)) "range" = some .given ∨
        r.listLength a.name ≠ 0 ∧
          s.bind "_n" (.number (r.listLength a.name)) "Output" = some .given) := by
      intro hgiven
      rw [eval_collect_of_given (Scope.bind_self ..) hgiven] at hitems
      cases hitems
    rw [hkept _ (by decide), hkept _ (by decide), not_or, not_and] at hnot
    refine ⟨⟨List.forall_mem_singleton.mpr hassigned, ?_, ?_⟩, _, h, fun y hy => ?_⟩
    · refine List.forall_mem_singleton.mpr fun hsize => hnot.2 ?_
      simpa [Argument.size, hlist] using hsize
    · exact List.forall_mem_singleton.mpr fun _ => hnot.1
    · rw [Scope.bind_of_ne _ _ (hrunning y hy).1, Scope.bind_of_ne _ _ (hvariable y hy),
        hkept y hy]

/-- If a run gets past the statements for any outputs, nothing was in their way. It is the converse
of `binds_flatMap`. -/
theorem unhindered_of_execute_flatMap {outs : List Argument} (hop : s "op" = some .operation)
    (hfree : ∀ a ∈ outs, v a ∉ usedNames)
    (h : execute r s (outs.flatMap (fun a => bindStatements (v a) a) ++ rest) = some out) :
    Unhindered v r.listLength outs s ∧
      ∃ s', execute r s' rest = some out ∧ ∀ y ∈ providedNames, s' y = s y := by
  induction outs generalizing s with
  | nil => exact ⟨⟨by simp, by simp, by simp⟩, s, h, fun _ _ => rfl⟩
  | cons a outs ih =>
    rw [List.flatMap_cons, List.append_assoc] at h
    -- The statements of the first output leave the provided names as they were, so the rest starts
    -- from a scope of the same kind.
    obtain ⟨hfirst, s₁, h₁, hkept₁⟩ :=
      unhindered_of_execute_bindStatements hop (hfree a List.mem_cons_self) h
    obtain ⟨hrest, s₂, h₂, hkept₂⟩ := ih ((hkept₁ _ (by decide)).trans hop)
      (fun b hb => hfree b (List.mem_cons_of_mem a hb)) h₁
    refine ⟨?_, s₂, h₂, fun y hy => (hkept₂ y hy).trans (hkept₁ y hy)⟩
    have hOutput := hkept₁ "Output" (by decide)
    have hrange := hkept₁ "range" (by decide)
    exact {
      assigned := List.forall_mem_cons.mpr
        ⟨hfirst.assigned a List.mem_cons_self, hrest.assigned⟩
      outputType := List.forall_mem_cons.mpr
        ⟨hfirst.outputType a List.mem_cons_self, hOutput ▸ hrest.outputType⟩
      rangeType := List.forall_mem_cons.mpr
        ⟨hfirst.rangeType a List.mem_cons_self, hrange ▸ hrest.rangeType⟩ }

end

end TypedOps
