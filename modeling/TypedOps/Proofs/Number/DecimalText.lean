import TypedOps.Number.Literal
import TypedOps.Proofs.Number.Shortest
import TypedOps.Proofs.Text.Digits
import TypedOps.Proofs.Text.Pieces

/-!
# `TypedOps.Proofs.Number.DecimalText`: the text of a decimal denotes the decimal

A text in decimal notation denotes a rational number (`denoted?`). `Floating.read?` goes through the
same parts, and rounds. The text of a decimal denotes the decimal (`Decimal.unsigned?_text`), with a
point or with an exponent. In both notations it is enough to know which digits there are and the
exponent of the first one (`worth`), so zeros at the end make no difference (`Decimal.value_eq`).
-/

set_option autoImplicit false

namespace TypedOps.Floating

open Text

/-! ### What a text denotes -/

/-- The number denoted by a text in decimal notation without a sign, as an exact rational: a
`mantissa?` and an `exponent?`. -/
def unsigned? (t : Text) : Option ℚ := do
  let (whole, part, tail) ← mantissa? t
  let e ← exponent? tail
  some (digitsValue 10 (whole ++ part) * 10 ^ (e - (part.length : ℤ)))

/-- The number denoted by a text in decimal notation, with or without a sign. What stands behind the
sign is `unsigned?`. -/
def denoted? (t : Text) : Option ℚ :=
  let (negative, rest) := readSign t
  (unsigned? rest).map fun x => if negative then -x else x

/-- A sign in front of a text turns the number that is `denoted?` by it. -/
theorem denoted?_sign {t : Text} {x : ℚ} (h : unsigned? t = some x) (negative : Bool) :
    denoted? (if negative then '-' :: t else t) = some (if negative then -x else x) := by
  cases negative with
  | true =>
    show (unsigned? t).map (fun x => -x) = some (-x)
    rw [h, Option.map_some]
  | false =>
    -- No sign is read from a text that denotes something without one.
    have hsign : readSign t = (false, t) := by
      unfold readSign
      split
      · next rest =>
        have hnone : mantissa? ('-' :: rest) = none := by
          rw [mantissa?.eq_def, readDigits?.eq_def]
          rfl
        rw [unsigned?, hnone] at h
        cases h
      · next rest =>
        have hnone : mantissa? ('+' :: rest) = none := by
          rw [mantissa?.eq_def, readDigits?.eq_def]
          rfl
        rw [unsigned?, hnone] at h
        cases h
      · rfl
    rw [if_neg Bool.false_ne_true, if_neg Bool.false_ne_true, denoted?, hsign]
    show (unsigned? t).map (fun x => x) = some x
    rw [h, Option.map_some]

/-! ### The parts -/

/-- A nonempty run of digits, for `readDigits?` to go through. -/
structure Digits (s : Text) : Prop where
  ne_nil : s ≠ []
  all : ∀ c ∈ s, isDigitOf 10 c = true

/-- A run of `Digits` with more digits behind it is one run. -/
theorem Digits.append {s t : Text} (hs : Digits s) (ht : ∀ c ∈ t, isDigitOf 10 c = true) :
    Digits (s ++ t) :=
  ⟨fun hnil => hs.ne_nil (List.append_eq_nil_iff.mp hnil).1,
    List.forall_mem_append.mpr ⟨hs.all, ht⟩⟩

/-- The zeros of `fill` that fill up a number are digits. -/
theorem isDigitOf_of_mem_zeros {k : Nat} : ∀ c ∈ fill k '0', isDigitOf 10 c = true := by
  intro c hc
  rw [List.eq_of_mem_replicate hc]
  rfl

/-- Digits are read by `readDigits?` up to something that is neither a digit nor a low line. -/
theorem readDigits?_append {s : Text} (hs : Digits s) (rest : Text)
    (hrest : ∀ c ∈ rest.head?, isDigitOf 10 c = false ∧ c ≠ '_') :
    readDigits? 10 (s ++ rest) = some (s, rest) := by
  obtain ⟨hne, hall⟩ := hs
  -- The induction is on the digits. Behind the last one stands what is not a digit.
  induction s with
  | nil => exact absurd rfl hne
  | cons c s ih =>
    rw [List.forall_mem_cons] at hall
    have hguard : ¬(!isDigitOf 10 c) = true := by rw [hall.1]; decide
    rw [List.cons_append, readDigits?.eq_def]
    simp only [if_neg hguard]
    cases s with
    | nil =>
      rw [List.nil_append]
      split
      · next more => exact absurd rfl (hrest '_' rfl).2
      · next next more _ => rw [(hrest next rfl).1, if_neg Bool.false_ne_true]
      · rfl
    | cons d s =>
      have hd := hall.2 d List.mem_cons_self
      have hnext := ih (by simp) hall.2
      rw [List.cons_append] at hnext ⊢
      -- The next code point is a digit, so of the three ways to go on only the second applies.
      split
      · next more heq =>
        rw [(List.cons.inj heq).1] at hd
        cases hd
      · next next more _ heq =>
        rw [← (List.cons.inj heq).1, ← (List.cons.inj heq).2, if_pos hd, hnext]
        rfl
      · next heq => cases heq

/-- Digits on both sides of a point are read by `mantissa?` as the two parts of a mantissa. -/
theorem mantissa?_point {whole part : Text} (hwhole : Digits whole) (hpart : Digits part)
    (rest : Text) (hrest : ∀ c ∈ rest.head?, isDigitOf 10 c = false ∧ c ≠ '_') :
    mantissa? (whole ++ '.' :: (part ++ rest)) = some (whole, part, rest) := by
  have hpoint : ∀ c ∈ ('.' :: (part ++ rest)).head?, isDigitOf 10 c = false ∧ c ≠ '_' := by
    intro c hc
    cases hc
    exact ⟨rfl, by decide⟩
  have hparts := readDigits?_append hpart rest hrest
  rw [mantissa?.eq_def, readDigits?_append hwhole _ hpoint]
  obtain ⟨d, part, rfl⟩ := List.exists_cons_of_ne_nil hpart.ne_nil
  have hd := hpart.all d List.mem_cons_self
  rw [List.cons_append] at hparts
  show (if isDigitOf 10 d then _ else _) = _
  rw [if_pos hd, List.cons_append, hparts]
  rfl

/-- Digits without a point are read by `mantissa?` as the whole part of a mantissa. -/
theorem mantissa?_whole {whole rest : Text} (hwhole : Digits whole)
    (hrest : ∀ c ∈ rest.head?, isDigitOf 10 c = false ∧ c ≠ '_') (hpoint : '.' ∉ rest.head?) :
    mantissa? (whole ++ rest) = some (whole, [], rest) := by
  rw [mantissa?.eq_def, readDigits?_append hwhole _ hrest]
  split
  · next heq =>
    cases heq
    exact absurd rfl hpoint
  · next heq =>
    cases heq
    rfl
  · next heq => cases heq

/-- An exponent is read by `exponent?` as the number it was written from. -/
theorem exponent?_eq (top : ℤ) :
    exponent? ('e' :: (if top < 0 then '-' else '+') :: padded 10 2 top.natAbs) = some top := by
  have hdigits : Digits (padded 10 2 top.natAbs) :=
    ⟨by simp [padded], isDigitOf_of_mem_padded (by decide) (by decide) 2 _⟩
  have hwhole : wholeDigits? 10 (padded 10 2 top.natAbs) = some top.natAbs := by
    have hread := readDigits?_append hdigits [] (by simp)
    rw [List.append_nil] at hread
    rw [wholeDigits?, hread]
    exact congrArg some (digitsValue_padded (by decide) (by decide) 2 _)
  -- The marker is a letter that the reader knows, so it reads a sign and digits behind it.
  have hmarker : ∀ rest, exponent? ('e' :: rest) =
      (wholeDigits? 10 (readSign rest).2).map
        fun n : Nat => if (readSign rest).1 then -(n : ℤ) else n := by
    intro rest
    show Option.map _ (wholeDigits? 10 (readSign rest).2 >>= _) = _
    cases wholeDigits? 10 (readSign rest).2 <;> rfl
  rw [hmarker]
  -- The sign is read off the text, and the digits give the absolute value.
  by_cases htop : top < 0
  · rw [if_pos htop]
    show (wholeDigits? 10 (padded 10 2 top.natAbs)).map (fun n : Nat => -(n : ℤ)) = some top
    rw [hwhole, Option.map_some]
    congr 1
    omega
  · rw [if_neg htop]
    show (wholeDigits? 10 (padded 10 2 top.natAbs)).map (fun n : Nat => (n : ℤ)) = some top
    rw [hwhole, Option.map_some]
    congr 1
    omega

/-! ### The two notations -/

/-- What digits are worth if the exponent of the first one is `top`. -/
def worth (digits : Text) (top : ℤ) : ℚ :=
  digitsValue 10 digits * 10 ^ (top + 1 - (digits.length : ℤ))

/-- Zeros at the end of digits change nothing about what they are `worth`. -/
theorem worth_append_zeros (digits : Text) (k : Nat) (top : ℤ) :
    worth (digits ++ fill k '0') top = worth digits top := by
  have hexponent : top + 1 - (digits.length : ℤ) = k + (top + 1 - (digits.length + k : Nat)) := by
    omega
  rw [worth, worth, digitsValue_append, digitsValue_zeros, List.length_append, hexponent, fill,
    List.length_replicate, zpow_add₀ (by norm_num), zpow_natCast]
  push_cast
  ring

/-- Digits with a point somewhere in between are read by `unsigned?` as what the digits are worth.
-/
theorem unsigned?_point {whole part : Text} (hwhole : Digits whole) (hpart : Digits part) :
    unsigned? (whole ++ '.' :: part) = some (worth (whole ++ part) ((whole.length : ℤ) - 1)) := by
  have hmantissa := mantissa?_point hwhole hpart [] (by simp)
  rw [List.append_nil] at hmantissa
  have hexponent : (whole.length : ℤ) - 1 + 1 - (whole ++ part).length = 0 - (part.length : ℤ) := by
    rw [List.length_append]
    omega
  rw [unsigned?, hmantissa, worth, hexponent]
  rfl

/-- The `positional` form of digits denotes what they are worth, wherever the point is. -/
theorem unsigned?_positional {digits : Text} (hdigits : Digits digits) (top : ℤ) :
    unsigned? (positional digits top) = some (worth digits top) := by
  have hzero : Digits ['0'] := ⟨by simp, isDigitOf_of_mem_zeros (k := 1)⟩
  rw [positional]
  split
  · next htop =>
    -- All digits stand behind the point, with zeros in front.
    have hpart : Digits (fill (-top - 1).toNat '0' ++ digits) :=
      ⟨by simp [hdigits.ne_nil], List.forall_mem_append.mpr ⟨isDigitOf_of_mem_zeros, hdigits.all⟩⟩
    refine (unsigned?_point hzero hpart).trans (congrArg some ?_)
    have hfront : ['0'] ++ (fill (-top - 1).toNat '0' ++ digits) =
        fill ((-top - 1).toNat + 1) '0' ++ digits := rfl
    rw [hfront, worth, worth, digitsValue_append, digitsValue_zeros, Nat.zero_mul, Nat.zero_add]
    congr 2
    rw [List.length_append, fill, List.length_replicate, List.length_singleton]
    omega
  · next htop =>
    simp only
    split
    · next hshort =>
      -- All stand in front, with zeros behind.
      have hread := unsigned?_point
        (hdigits.append (isDigitOf_of_mem_zeros (k := top.toNat + 1 - digits.length))) hzero
      have hbehind : digits ++ fill (top.toNat + 1 - digits.length) '0' ++ ['0'] =
          digits ++ fill (top.toNat + 1 - digits.length + 1) '0' := by
        rw [fill, fill, List.replicate_succ', List.append_assoc]
      rw [hbehind, worth_append_zeros] at hread
      refine hread.trans (congrArg (fun i => some (worth digits i)) ?_)
      rw [List.length_append, fill, List.length_replicate]
      omega
    · next hlong =>
      have hwhole : Digits (digits.take (top.toNat + 1)) :=
        ⟨by simp [hdigits.ne_nil], fun c hc => hdigits.all c (List.mem_of_mem_take hc)⟩
      have hpart : Digits (digits.drop (top.toNat + 1)) :=
        ⟨fun hnil => hlong (List.drop_eq_nil_iff.mp hnil),
          fun c hc => hdigits.all c (List.mem_of_mem_drop hc)⟩
      have hread := unsigned?_point hwhole hpart
      rw [List.take_append_drop] at hread
      rw [List.append_assoc, List.singleton_append]
      refine hread.trans (congrArg (fun i => some (worth digits i)) ?_)
      rw [List.length_take]
      omega

/-- The `scientific` form of digits denotes what they are worth: one digit in front of a point, and
an exponent. -/
theorem unsigned?_scientific {digits : Text} (hdigits : Digits digits) (top : ℤ) :
    unsigned? (scientific digits top) = some (worth digits top) := by
  -- Behind the mantissa stands the marker of the exponent, which ends the digits.
  have hends : ∀ c ∈ ('e' :: (if top < 0 then '-' else '+') :: padded 10 2 top.natAbs).head?,
      isDigitOf 10 c = false ∧ c ≠ '_' := by
    intro c hc
    cases hc
    exact ⟨rfl, by decide⟩
  obtain ⟨d, rest, rfl⟩ := List.exists_cons_of_ne_nil hdigits.ne_nil
  have hd : Digits [d] := ⟨by simp, by simpa using hdigits.all d List.mem_cons_self⟩
  have hmantissa : mantissa? (scientific (d :: rest) top) =
      some ([d], rest, 'e' :: (if top < 0 then '-' else '+') :: padded 10 2 top.natAbs) := by
    cases rest with
    | nil => exact mantissa?_whole hd hends (by simp)
    | cons c rest =>
      have hrest : Digits (c :: rest) :=
        ⟨by simp, fun b hb => hdigits.all b (List.mem_cons_of_mem d hb)⟩
      have htext : scientific (d :: c :: rest) top =
          [d] ++ '.' :: (c :: rest ++ 'e' :: (if top < 0 then '-' else '+') ::
            padded 10 2 top.natAbs) := by
        simp [scientific]
      rw [htext]
      exact mantissa?_point hd hrest _ hends
  -- With one digit in front of the point the exponent is the place of the first digit.
  have hexponent : top + 1 - ((d :: rest).length : ℤ) = top - (rest.length : ℤ) := by
    rw [List.length_cons]
    omega
  rw [unsigned?, hmantissa, worth, hexponent]
  show (exponent? _ >>= fun e => some _) = _
  rw [exponent?_eq]
  rfl

/-! ### Decimals -/

/-- A decimal other than zero has `significantDigits` left without the zeros at its end. -/
theorem Decimal.digits_significantDigits {d : Decimal} (hd : d.digits ≠ 0) :
    Digits d.significantDigits := by
  -- What is cut off is a run of zeros, and the digits that stay are digits.
  obtain ⟨behind, heq, hzeros⟩ := exists_trimEnd_append (· == '0') (Text.ofNat d.digits)
  have hall : ∀ c ∈ Text.ofNat d.digits, isDigitOf 10 c = true :=
    isDigitOf_of_mem_toDigits (by decide) (by decide) d.digits
  refine ⟨fun hnil => hd ?_, fun c hc => hall c ?_⟩
  · -- Zeros alone stand for zero.
    have hfill : Text.ofNat d.digits = fill behind.length '0' := by
      rw [heq, show trimEnd (· == '0') (Text.ofNat d.digits) = [] from hnil, List.nil_append]
      exact List.eq_replicate_of_mem fun c hc => beq_iff_eq.mp (hzeros c hc)
    calc d.digits = digitsValue 10 (Text.ofNat d.digits) :=
          (digitsValue_toDigits (by decide) (by decide) d.digits).symm
      _ = 0 := by rw [hfill, digitsValue_zeros]
  -- A digit that stays is one of the number.
  · rw [heq]
    exact List.mem_append_left _ hc

/-- The value of a decimal is what its `significantDigits` are worth. -/
theorem Decimal.value_eq (d : Decimal) : d.value = worth d.significantDigits d.top := by
  obtain ⟨behind, heq, hzeros⟩ := exists_trimEnd_append (· == '0') (Text.ofNat d.digits)
  have hfill : behind = fill behind.length '0' :=
    List.eq_replicate_of_mem fun c hc => beq_iff_eq.mp (hzeros c hc)
  have hwhole : worth (Text.ofNat d.digits) d.top = d.value := by
    have hexponent : d.top + 1 - ((Text.ofNat d.digits).length : ℤ) = d.exponent := by
      rw [top, digitCount, Text.ofNat]
      omega
    rw [worth, hexponent, Text.ofNat, digitsValue_toDigits (by decide) (by decide)]
    rfl
  rw [← hwhole, heq, hfill, worth_append_zeros]
  rfl

/-- The text of a decimal is read by `unsigned?` as the value of the decimal, in either form. -/
theorem Decimal.unsigned?_text {d : Decimal} (hd : d.digits ≠ 0) :
    unsigned? d.text = some d.value := by
  rw [value_eq, text]
  split
  · exact unsigned?_scientific (digits_significantDigits hd) d.top
  · exact unsigned?_positional (digits_significantDigits hd) d.top

/-- The text of zero is `denoted?` zero, with a sign or without. -/
theorem denoted?_text_zero (negative : Bool) (e : ℤ) :
    denoted? (Floating.finite negative 0 e).text = some 0 := by
  have hzero : Digits ['0'] := ⟨by simp, isDigitOf_of_mem_zeros (k := 1)⟩
  have hread := unsigned?_point hzero hzero
  have hworth : worth (['0'] ++ ['0']) ((['0'] : Text).length - 1) = 0 := by
    rw [worth]
    exact mul_eq_zero_of_left (Nat.cast_eq_zero.mpr rfl) _
  rw [hworth] at hread
  have hsigned := denoted?_sign hread negative
  rw [neg_zero, ite_self] at hsigned
  exact hsigned

/-- The text of any other double has as `denoted?` the shortest decimal that reads back as the
double. -/
theorem denoted?_text {m : Nat} {e : ℤ} {x : ℚ} (hm : m ≠ 0)
    (h : (shortest (fraction m e).1 (fraction m e).2).value = x) (hx : x ≠ 0) (negative : Bool) :
    denoted? (Floating.finite negative m e).text = some (if negative then -x else x) := by
  have hdigits : (shortest (fraction m e).1 (fraction m e).2).digits ≠ 0 := by
    intro hzero
    rw [Decimal.value, hzero, Nat.cast_zero, zero_mul] at h
    exact hx h.symm
  have hread := Decimal.unsigned?_text hdigits
  rw [h] at hread
  rw [text, if_neg hm]
  exact denoted?_sign hread negative

end TypedOps.Floating
