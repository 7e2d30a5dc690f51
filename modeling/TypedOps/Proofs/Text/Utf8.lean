import TypedOps.Text.Utf8

/-!
# `TypedOps.Proofs.Text.Utf8`: encoded texts are well formed

The bytes of a code point are one segment, in front of anything (`segments_encodeChar`),
so the bytes of a text are cut into its code points and nothing else. Both decoders give
the text back; only the strict one is used here (`decode?_encode`).
-/

set_option autoImplicit false

namespace TypedOps.Utf8

/-- A number below 256 is given back by the byte that `UInt8.ofNat` makes of it. -/
theorem toNat_byte {n : Nat} (h : n < 256) : (UInt8.ofNat n).toNat = n := by
  rw [UInt8.toNat_ofNat', Nat.mod_eq_of_lt h]

/-- A continuation byte is known as one by `isContinuation`, and gives back the six bits that it
carries. -/
theorem isContinuation_byte {n : Nat} (h : n < 64) :
    isContinuation (UInt8.ofNat (0x80 + n)) = true ∧ low (UInt8.ofNat (0x80 + n)) = n := by
  simp only [isContinuation, low, toNat_byte (show 0x80 + n < 256 by omega), Bool.and_eq_true,
    decide_eq_true_eq]
  omega

/-- The first byte narrows for `mayFollow` the range of the second where a sequence would otherwise
be overlong, a surrogate or past the last code point. -/
theorem mayFollow_byte {first second : Nat} (hfirst : first < 256)
    (hsecond : 0x80 ≤ second ∧ second < 0xC0) (he0 : first = 0xE0 → 0xA0 ≤ second)
    (hed : first = 0xED → second < 0xA0) (hf0 : first = 0xF0 → 0x90 ≤ second)
    (hf4 : first = 0xF4 → second < 0x90) :
    mayFollow (UInt8.ofNat first) (UInt8.ofNat second) = true := by
  simp only [mayFollow, isContinuation, toNat_byte hfirst,
    toNat_byte (show second < 256 by omega)]
  split <;> simp <;> omega

/-! ### Sequences by their length -/

/-- A code point of two bytes is read back by `front`. -/
theorem front_two {n : Nat} (hn : 0x80 ≤ n ∧ n < 0x800) (rest : Bytes) :
    front (UInt8.ofNat (0xC0 + n / 64)) (UInt8.ofNat (0x80 + n % 64) :: rest) =
      (some (Char.ofNat n), 1) := by
  have hfollow : mayFollow (UInt8.ofNat (0xC0 + n / 64)) (UInt8.ofNat (0x80 + n % 64)) = true :=
    mayFollow_byte (by omega) (by omega) (by omega) (by omega) (by omega) (by omega)
  have hlow := (isContinuation_byte (show n % 64 < 64 by omega)).2
  have hvalue : (0xC0 + n / 64) % 32 * 64 + n % 64 = n := by omega
  simp only [front, toNat_byte (show 0xC0 + n / 64 < 256 by omega)]
  rw [if_neg (by omega), if_neg (by simp; omega), if_neg (by rw [hfollow]; decide),
    if_pos (by omega), hlow, hvalue]

/-- A code point of three bytes is read back by `front`. Surrogates are out of range. -/
theorem front_three {n : Nat} (hn : 0x800 ≤ n ∧ n < 0x10000)
    (hsurrogate : n < 0xD800 ∨ 0xDFFF < n) (rest : Bytes) :
    front (UInt8.ofNat (0xE0 + n / 4096))
        (UInt8.ofNat (0x80 + n / 64 % 64) :: UInt8.ofNat (0x80 + n % 64) :: rest) =
      (some (Char.ofNat n), 2) := by
  have hfollow : mayFollow (UInt8.ofNat (0xE0 + n / 4096))
      (UInt8.ofNat (0x80 + n / 64 % 64)) = true :=
    mayFollow_byte (by omega) (by omega) (by omega) (by omega) (by omega) (by omega)
  have hsecond := (isContinuation_byte (show n / 64 % 64 < 64 by omega)).2
  have hthird := isContinuation_byte (show n % 64 < 64 by omega)
  have hvalue : (0xE0 + n / 4096) % 16 * 4096 + n / 64 % 64 * 64 + n % 64 = n := by omega
  simp only [front, toNat_byte (show 0xE0 + n / 4096 < 256 by omega)]
  rw [if_neg (by omega), if_neg (by simp; omega), if_neg (by rw [hfollow]; decide),
    if_neg (by omega), if_neg (by rw [hthird.1]; decide), if_pos (by omega), hsecond, hthird.2,
    hvalue]

/-- A code point of four bytes is read back by `front`. Nothing past U+10FFFF is in range. -/
theorem front_four {n : Nat} (hn : 0x10000 ≤ n ∧ n < 0x110000) (rest : Bytes) :
    front (UInt8.ofNat (0xF0 + n / 262144))
        (UInt8.ofNat (0x80 + n / 4096 % 64) :: UInt8.ofNat (0x80 + n / 64 % 64) ::
          UInt8.ofNat (0x80 + n % 64) :: rest) =
      (some (Char.ofNat n), 3) := by
  have hfollow : mayFollow (UInt8.ofNat (0xF0 + n / 262144))
      (UInt8.ofNat (0x80 + n / 4096 % 64)) = true :=
    mayFollow_byte (by omega) (by omega) (by omega) (by omega) (by omega) (by omega)
  have hsecond := (isContinuation_byte (show n / 4096 % 64 < 64 by omega)).2
  have hthird := isContinuation_byte (show n / 64 % 64 < 64 by omega)
  have hfourth := isContinuation_byte (show n % 64 < 64 by omega)
  have hvalue : (0xF0 + n / 262144) % 8 * 262144 + n / 4096 % 64 * 4096 + n / 64 % 64 * 64 +
      n % 64 = n := by omega
  simp only [front, toNat_byte (show 0xF0 + n / 262144 < 256 by omega)]
  rw [if_neg (by omega), if_neg (by simp; omega), if_neg (by rw [hfollow]; decide),
    if_neg (by omega), if_neg (by rw [hthird.1]; decide), if_neg (by omega),
    if_neg (by rw [hfourth.1]; decide), hsecond, hthird.2, hfourth.2, hvalue]

/-! ### Texts -/

/-- The `segments` behind some bytes are those of what stands behind them. -/
theorem segmentsFrom_skip (skipped rest : Bytes) :
    segmentsFrom skipped.length (skipped ++ rest) = segments rest := by
  induction skipped with
  | nil => rfl
  | cons b skipped ih => exact ih

/-- A first byte with as many bytes behind it as it asks for begins one of the `segments`. -/
theorem segments_of_front {a : UInt8} {more rest : Bytes} {c : Char}
    (h : front a (more ++ rest) = (some c, more.length)) :
    segments (a :: more ++ rest) = some c :: segments rest := by
  show segmentsFrom 0 (a :: (more ++ rest)) = _
  rw [segmentsFrom, h, segmentsFrom_skip]

/-- The bytes that `encodeChar` gives of a code point are one segment, whatever stands behind them.
-/
theorem segments_encodeChar (c : Char) (rest : Bytes) :
    segments (encodeChar c ++ rest) = some c :: segments rest := by
  have hvalid : c.toNat < 0xD800 ∨ (0xDFFF < c.toNat ∧ c.toNat < 0x110000) := c.valid
  simp only [encodeChar]
  -- The length of the encoding decides which form the decoder sees at the front.
  split
  · refine @segments_of_front _ [] rest c ?_
    simp only [front, toNat_byte (show c.toNat < 256 by omega)]
    rw [if_pos (by omega), Char.ofNat_toNat]
    rfl
  · split
    · refine segments_of_front ?_
      rw [List.singleton_append, front_two (by omega), Char.ofNat_toNat]
      rfl
    · split
      · refine segments_of_front ?_
        exact (front_three (by omega) (by omega) rest).trans (by rw [Char.ofNat_toNat]; rfl)
      · refine segments_of_front ?_
        exact (front_four (by omega) rest).trans (by rw [Char.ofNat_toNat]; rfl)

/-- An encoded text is cut by `segments` into its code points. -/
theorem segments_encode (t : Text) : segments (encode t) = t.map some := by
  induction t with
  | nil => rfl
  | cons c t ih =>
    rw [encode, List.flatMap_cons, segments_encodeChar, List.map_cons]
    exact congrArg _ ih

/-- A text is read back by `decode?` from its bytes. -/
theorem decode?_encode (t : Text) : decode? (encode t) = some t := by
  rw [decode?, segments_encode]
  induction t with
  | nil => rfl
  | cons c t ih =>
    rw [List.map_cons, List.mapM_cons, ih]
    rfl

end TypedOps.Utf8
