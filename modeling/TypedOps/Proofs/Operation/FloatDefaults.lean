import TypedOps.Proofs.Emit.ShownDefaults
import TypedOps.Proofs.Number.SevenDigits
import TypedOps.Proofs.Value.Literals

/-!
# `TypedOps.Proofs.Operation.FloatDefaults`: what the shown default says about a float

The floats of a catalog are stored in single precision, and documentation shows them with seven
significant digits. Seven digits tell most numbers of single precision apart, but not all: some take
nine. `shows_defaults` says when a number can be told from all others by what is shown. It can be if
there is any decimal of seven digits that identifies it. Then the shown decimal does and is rounded
back to it, so two such numbers are never shown alike. The items of a list are shown as they are on
their own.

In particular, a default that was written with at most seven digits in the first place is identified
by what is shown. A whole number from `2 ^ 24` on need not be (`shows_defaults_wide`).
-/

set_option autoImplicit false

namespace TypedOps.Value

open Floating (Format Shows InSevenDigits)
open Text (join)

/-- The number that a `Value` is where a float is asked for, as an exact rational. -/
def number? : Value → Option ℚ
  | .float (.finite negative m e) => some (Floating.finite negative m e).value
  | .int i => some i
  | .bool b => some (if b then 1 else 0)
  | _ => none

/-- A value that is the number `x`, of single precision. -/
structure IsSingle (v : Value) (x : ℚ) : Prop where
  number : v.number? = some x
  single : Format.single.Has x

/-- An integer of single precision is brought by `ofInt` into double precision without loss. -/
theorem exists_ofInt_eq {i : ℤ} (h : Format.single.Has i) :
    ∃ negative m e, Format.double.ofInt i = .finite negative m e ∧
      (Floating.finite negative m e).value = i := by
  have hofInt : Format.double.ofInt i = Format.double.nearest i := by
    rw [Format.ofInt, Format.nearest, Rat.num_intCast, Rat.den_intCast]
    simp only [Int.cast_lt_zero]
  rw [hofInt]
  exact (h.mono (by decide) (by decide) (by decide)).exists_nearest_eq Format.double_sound

/-- The float that `asFloat` makes of a value of single precision is the same number. -/
theorem IsSingle.exists_asFloat_eq {v : Value} {x : ℚ} (h : v.IsSingle x) :
    ∃ negative m e, v.asFloat = .ok (.finite negative m e) ∧
      (Floating.finite negative m e).value = x := by
  obtain ⟨hnumber, hsingle⟩ := h
  -- A float is the number already, and an integer or a truth value is made one.
  cases v with
  | float y =>
    cases y with
    | finite negative m e => exact ⟨negative, m, e, rfl, Option.some.inj hnumber⟩
    | _ => cases hnumber
  | int i =>
    obtain rfl : (i : ℚ) = x := Option.some.inj hnumber
    obtain ⟨negative, m, e, hform, hvalue⟩ := exists_ofInt_eq hsingle
    exact ⟨negative, m, e, by rw [asFloat, hform], hvalue⟩
  | bool b =>
    obtain rfl : (if b then 1 else 0 : ℚ) = x := Option.some.inj hnumber
    have hcast : (if b then 1 else 0 : ℚ) = ((if b then 1 else 0 : ℤ) : ℚ) := by
      cases b <;> simp
    rw [hcast] at hsingle ⊢
    obtain ⟨negative, m, e, hform, hvalue⟩ := exists_ofInt_eq hsingle
    exact ⟨negative, m, e, by rw [asFloat, hform], hvalue⟩
  | _ => cases hnumber

/-- The text of the float that `asShownFloat` gives for a value says as much about it as seven
digits can. -/
theorem IsSingle.exists_asShownFloat_eq {v : Value} {x : ℚ} (h : v.IsSingle x) :
    ∃ y, v.asShownFloat = .ok (.float y) ∧ Shows y.text x := by
  obtain ⟨negative, m, e, hfloat, rfl⟩ := h.exists_asFloat_eq
  refine ⟨_, ?_, Floating.shows_significant negative m e h.single⟩
  rw [asShownFloat, hfloat]
  rfl

/-- The texts of the floats that `asShownFloat` gives for several values say as much about them as
seven digits can. -/
theorem exists_asShownFloats {items : List Value} {xs : List ℚ}
    (h : List.Forall₂ IsSingle items xs) :
    ∃ fs : List Floating, List.Forall₂ (fun v f => v.asShownFloat = .ok (.float f)) items fs ∧
      List.Forall₂ (fun f x => Shows f.text x) fs xs := by
  induction h with
  | nil => exact ⟨[], .nil, .nil⟩
  | cons hitem _ ih =>
    obtain ⟨f, hfloat, hshow⟩ := hitem.exists_asShownFloat_eq
    obtain ⟨fs, hfloats, hshows⟩ := ih
    exact ⟨f :: fs, .cons hfloat hfloats, .cons hshow hshows⟩

/-- A default of type `float` is shown as the text of its float. -/
theorem shownDefault_float {v : Value} {y : Floating} (h : v.asShownFloat = .ok (.float y)) :
    v.shownDefault "float" = .ok y.text := by
  show v.asShownFloat >>= literal = _
  rw [h]
  rfl

/-- A default of type `list(float)` is shown as the texts of its floats, between brackets. -/
theorem shownDefault_list_float {items : List Value} {ys : List Floating}
    (h : List.Forall₂ (fun v y => v.asShownFloat = .ok (.float y)) items ys) :
    (Value.list items).shownDefault "list(float)" =
      .ok ("[" ++ join ", " (ys.map Floating.text) ++ "]") := by
  -- The items are made floats one by one, and each is spelled by itself.
  have hall : items.mapM asShownFloat = .ok (ys.map .float) := by
    induction h with
    | nil => rfl
    | cons hv _ ih =>
      rw [List.mapM_cons, hv, ih]
      rfl
  have hspelled : (Value.list (ys.map .float)).spelled =
      "[" ++ join ", " (ys.map Floating.text) ++ "]" := by
    rw [spelled, spelledAll_eq_map, List.map_map]
    rfl
  show (items.mapM asShownFloat >>= fun shown => literal (.list shown)) = _
  rw [hall, ← hspelled]
  exact literal_eq_spelled (writable_floats ys)

/-- Each of several defaults of single precision is shown by `shownDefault`, on its own and as an
item of a list, by a text that identifies it and is rounded back to it if any decimal of seven
digits identifies it, and no two that seven digits identify are shown alike. -/
theorem shows_defaults {items : List Value} {xs : List ℚ} (h : List.Forall₂ IsSingle items xs) :
    ∃ shown : List Text,
      (Value.list items).shownDefault "list(float)" = .ok ("[" ++ join ", " shown ++ "]") ∧
        List.Forall₂ (fun v t => v.shownDefault "float" = .ok t) items shown ∧
        List.Forall₂ Shows shown xs ∧
        ∀ t x y, (t, x) ∈ shown.zip xs → (t, y) ∈ shown.zip xs →
          InSevenDigits x → InSevenDigits y → x = y := by
  obtain ⟨fs, hfloats, hshows⟩ := exists_asShownFloats h
  have hall : List.Forall₂ Shows (fs.map Floating.text) xs := by
    rwa [List.forall₂_map_left_iff]
  refine ⟨fs.map Floating.text, shownDefault_list_float hfloats, ?_, hall, ?_⟩
  · rw [List.forall₂_map_right_iff]
    exact hfloats.imp fun _ _ => shownDefault_float
  · intro t x y hx hy
    obtain ⟨-, heach⟩ := List.forall₂_iff_zip.mp hall
    exact (heach hx).unique (heach hy)

/-- A tenth in single precision, which is no tenth exactly. Its `number?` is the nearest fraction of
the format. -/
def singleTenth : Value := .float (.finite false 13421773 (-27))

/-- The `singleTenth`, the tenth in single precision, is identified by a decimal of one digit. -/
theorem inSevenDigits_singleTenth : InSevenDigits (13421773 / 2 ^ 27) := by
  have hwhole : Format.single.Whole (13421773 / 2 ^ 27) 13421773 (-27) :=
    ⟨by norm_num, by decide, by decide, by decide, by decide, fun _ => by decide⟩
  have hgap : Format.single.gapBelow 13421773 (-27) = 2 ^ (-27 : ℤ) := if_neg (by decide)
  refine ⟨1 / 10, ⟨1, -1, by decide, by norm_num⟩, by norm_num [abs_of_pos], ?_⟩
  rw [hwhole.identifies_iff Format.single_sound, hgap]
  norm_num

/-- A value of fewer than `2 ^ 24` units of an allowed place is one of single precision. -/
theorem isSingle_of_steps {v : Value} {x : ℚ} {n e : ℤ} (h : v.number? = some x)
    (hx : n * 2 ^ e = x) (hn : |n| < 2 ^ 24) (hmin : -149 ≤ e) (hmax : e ≤ 104) :
    IsSingle v x := by
  have hhas : Format.single.Has (n * 2 ^ e) := Format.has_steps Format.single_sound hn hmin hmax
  exact ⟨h, hx ▸ hhas⟩

/-- The `singleTenth` and one, each on its own and both in a list, are shown by the decimals one
would write. -/
theorem shows_defaults_tenth :
    List.Forall₂ IsSingle [singleTenth, .int 1] [13421773 / 2 ^ 27, 1] ∧
      InSevenDigits (13421773 / 2 ^ 27) ∧
      ∃ shown : List Text,
        (Value.list [singleTenth, .int 1]).shownDefault "list(float)" =
            .ok ("[" ++ join ", " shown ++ "]") ∧
          List.Forall₂ (fun v t => Value.shownDefault v "float" = .ok t) [singleTenth, .int 1]
            shown ∧
          List.Forall₂ Shows shown [13421773 / 2 ^ 27, 1] ∧
          ∀ t x y, (t, x) ∈ shown.zip [13421773 / 2 ^ 27, 1] →
            (t, y) ∈ shown.zip [13421773 / 2 ^ 27, 1] →
              InSevenDigits x → InSevenDigits y → x = y := by
  have htenth : IsSingle singleTenth (13421773 / 2 ^ 27) :=
    isSingle_of_steps (n := 13421773) (e := -27)
      (congrArg some (by norm_num [Floating.value])) (by norm_num) (by decide) (by decide)
      (by decide)
  have hone : IsSingle (.int 1) 1 :=
    isSingle_of_steps (n := 1) (e := 0) (by simp [number?]) (by norm_num) (by decide) (by decide)
      (by decide)
  have hboth : List.Forall₂ IsSingle [singleTenth, .int 1] [13421773 / 2 ^ 27, 1] :=
    .cons htenth (.cons hone .nil)
  exact ⟨hboth, inSevenDigits_singleTenth, shows_defaults hboth⟩

/-- Two numbers of single precision that have eight digits are both shown by `shownDefault` as the
greater one, which does not identify the other. -/
theorem shows_defaults_wide :
    IsSingle (.int 16777216) 16777216 ∧ IsSingle (.int 16777220) 16777220 ∧
      (Value.int 16777216).shownDefault "float" = .ok "16777220.0" ∧
      (Value.int 16777220).shownDefault "float" = .ok "16777220.0" ∧
      Floating.denoted? "16777220.0" = some 16777220 ∧
      ¬Format.single.Identifies 16777220 16777216 := by
  have hfirst : IsSingle (.int 16777216) 16777216 :=
    isSingle_of_steps (n := 8388608) (e := 1) (by simp [number?]) (by norm_num) (by decide)
      (by decide) (by decide)
  have hsecond : IsSingle (.int 16777220) 16777220 :=
    isSingle_of_steps (n := 4194305) (e := 2) (by simp [number?]) (by norm_num) (by decide)
      (by decide) (by decide)
  have hdenotes : Floating.denoted? "16777220.0" = some 16777220 := by
    have hwhole : Floating.Digits "16777220" := ⟨by decide, by decide⟩
    have hpart : Floating.Digits "0" := ⟨by decide, by decide⟩
    have hread := Floating.unsigned?_point hwhole hpart
    have hworth : Floating.worth ("16777220".toList ++ "0".toList) (("16777220".length : ℤ) - 1) =
        16777220 := by
      show ((167772200 : ℕ) : ℚ) * 10 ^ (7 + 1 - 9 : ℤ) = 16777220
      norm_num
    exact Floating.denoted?_sign (hread.trans (congrArg some hworth)) false
  refine ⟨hfirst, hsecond, by decide, by decide, hdenotes, fun h => ?_⟩
  -- The greater one is not nearer to the other than to itself.
  have hnear := h 16777220 hsecond.single (by norm_num)
  norm_num at hnear

end TypedOps.Value
