import Mathlib.Data.List.Basic
import TypedOps.Proofs.Text.Digits
import TypedOps.Proofs.Text.Spells

/-!
# `TypedOps.Proofs.Text.Unescape`: escaped texts are read back

`escape` writes each code point for itself (`escapedChar_cases`): either bare, or as a
backslash, a head that says which escape it is, and perhaps two more octal digits. The
first two passes of `unescape?` know none of these heads and leave such a text alone. The
third turns each escape into the bytes of its code point, which gives `unescape?_escape`.
A text without backslashes goes through all three (`unescape?_of_not_mem`).
-/

set_option autoImplicit false

namespace TypedOps.Text

/-- What may stand behind the backslash of an escape that `escape` writes. -/
def escapeHeads : Text := ['n', 'r', 't', '"', '\'', '\\', '0', '1']

/-- An ASCII character is `padded` to three octal digits, which name it. -/
theorem padded_octal {n : Nat} (hn : n < 128) :
    (padded 8 3 n).length = 3 ∧ (∀ d ∈ padded 8 3 n, isDigitOf 8 d = true) ∧
      (∀ d ∈ (padded 8 3 n).head?, d ∈ escapeHeads) ∧
      byte? (digitsValue 8 (padded 8 3 n)) = some (UInt8.ofNat n) := by
  have hrange : n < 8 ^ (2 + 1) := by omega
  refine ⟨length_padded (by decide) 2 hrange,
    isDigitOf_of_mem_padded (by decide) (by decide) 3 n, fun d hd => ?_, ?_⟩
  · have hfirst : d = Nat.digitChar (n / 8 / 8) := by
      rw [padded_succ (by decide), padded_succ (by decide), padded_one (by omega)] at hd
      simpa using hd.symm
    rcases show n / 8 / 8 = 0 ∨ n / 8 / 8 = 1 by omega with hzero | hone
    · rw [hfirst, hzero]
      decide
    · rw [hfirst, hone]
      decide
  · rw [digitsValue_padded (by decide) (by decide), byte?, if_pos (by omega)]

/-- Three octal digits are taken together by `byteEscape?`, whatever stands behind them. -/
theorem byteEscape?_octal {d e f : Char} (h : ∀ c ∈ [d, e, f], isDigitOf 8 c = true)
    (rest : Text) :
    byteEscape? (d :: e :: f :: rest) =
      (byte? (digitsValue 8 [d, e, f])).map fun b => ([b], 3) := by
  simp only [List.forall_mem_cons, List.not_mem_nil, IsEmpty.forall_iff, implies_true,
    and_true] at h
  obtain ⟨hd, he, hf⟩ := h
  have hother : ∀ c, isDigitOf 8 c = false → d ≠ c := by
    rintro c hc rfl
    rw [hd] at hc
    cases hc
  rw [byteEscape?, if_neg (hother 'x' (by decide)), if_neg (hother 'u' (by decide)),
    if_neg (hother 'U' (by decide)), if_neg (hother 'N' (by decide)),
    if_neg (hother '\n' (by decide)), if_pos hd]
  simp [he, hf]

/-- The `escapedChar` of a code point is bare, or else an escape that names its bytes. Line feeds,
quotes and backslashes are never bare. -/
theorem escapedChar_cases (c : Char) :
    (c ∉ ['\n', '"', '\\'] ∧ escapedChar c = [c]) ∨
      ∃ d tail, escapedChar c = '\\' :: d :: tail ∧ d ∈ escapeHeads ∧
        (∀ e ∈ tail, isDigitOf 8 e = true) ∧
        ∀ rest, byteEscape? (d :: tail ++ rest) = some (Utf8.encodeChar c, (d :: tail).length) := by
  by_cases hletter : c ∈ ['\n', '\r', '\t', '"', '\'', '\\']
  · -- One letter stands for each of these.
    simp only [List.mem_cons, List.not_mem_nil, or_false] at hletter
    rcases hletter with rfl | rfl | rfl | rfl | rfl | rfl
    all_goals exact Or.inr ⟨_, [], rfl, by decide, by simp, fun rest => rfl⟩
  simp only [List.mem_cons, List.not_mem_nil, or_false, not_or] at hletter
  obtain ⟨hfeed, hreturn, htab, hdouble, hsingle, hback⟩ := hletter
  rw [escapedChar, if_neg hfeed, if_neg hreturn, if_neg htab, if_neg hdouble, if_neg hsingle,
    if_neg hback]
  -- What is left is a control character, written in octal, or stands for itself.
  split
  · next hcontrol =>
    have hnumber : c.toNat < 32 ∨ c.toNat = 127 := by simpa using hcontrol
    obtain ⟨hlength, hdigits, hhead, hbyte⟩ := padded_octal (show c.toNat < 128 by omega)
    obtain ⟨d, e, f, hpadded⟩ := List.length_eq_three.mp hlength
    rw [hpadded] at hdigits hhead hbyte ⊢
    refine Or.inr ⟨d, [e, f], rfl, hhead d rfl, fun x hx => ?_, fun rest => ?_⟩
    · exact hdigits x (List.mem_cons_of_mem d hx)
    · show byteEscape? (d :: e :: f :: rest) = _
      rw [byteEscape?_octal hdigits, hbyte, Utf8.encodeChar, if_pos (by omega)]
      rfl
  · exact Or.inl ⟨by simp [hfeed, hdouble, hback], rfl⟩

/-- A pass of `readEscapes` that copies bare code points and the escapes of all heads leaves an
escaped text alone. -/
theorem readEscapes_escape {escape? : Text → Option (Text × Nat)}
    (h : ∀ d ∈ escapeHeads, ∀ rest, escape? (d :: rest) = some (['\\', d], 1)) (t : Text) :
    readEscapes escape? (fun c => [c]) 0 (escape t) = some (escape t) := by
  refine Spells.readEscapes_eq (spells_flatMap fun c _ => ?_)
  rcases escapedChar_cases c with ⟨hfree, hbare⟩ | ⟨d, tail, hwritten, hd, htail, -⟩
  · rw [hbare]
    exact spells_plain (by rintro rfl; simp at hfree)
  · rw [hwritten]
    have hback : '\\' ∉ tail := fun hmem => absurd (htail _ hmem) (by decide)
    have hhead : Spells escape? (fun c => [c]) ['\\', d] ['\\', d] :=
      spells_escape (s := [d]) fun rest => h d hd rest
    exact hhead.append (spells_self hback)

/-- An escaped text is read by `unescape?` as the bytes of the text. -/
theorem unescape?_escape (t : Text) : unescape? (escape t) = some (Utf8.encode t) := by
  -- The escapes that are written are neither of the kinds that the first two passes rewrite.
  have hpad : padHexEscapes? (escape t) = some (escape t) := by
    refine readEscapes_escape (fun d hd rest => ?_) t
    simp only [escapeHeads, List.mem_cons, List.not_mem_nil, or_false] at hd
    rcases hd with rfl | rfl | rfl | rfl | rfl | rfl | rfl | rfl <;> rfl
  have hname : nameEscapes? (escape t) = some (escape t) := by
    refine readEscapes_escape (fun d hd rest => ?_) t
    simp only [escapeHeads, List.mem_cons, List.not_mem_nil, or_false] at hd
    rcases hd with rfl | rfl | rfl | rfl | rfl | rfl | rfl | rfl <;> rfl
  -- The last pass turns each escape into the bytes of its code point.
  have hbytes : byteEscapes? (escape t) = some (Utf8.encode t) := by
    refine Spells.readEscapes_eq (spells_flatMap fun c _ => ?_)
    rcases escapedChar_cases c with ⟨hfree, hbare⟩ | ⟨d, tail, hwritten, -, -, hread⟩
    · rw [hbare]
      exact spells_plain (by rintro rfl; simp at hfree)
    · rw [hwritten]
      exact spells_escape hread
  rw [unescape?, hpad, Option.bind_eq_bind, Option.bind_some, hname, Option.bind_some, hbytes]

/-- A text without backslashes is read by `unescape?` as its bytes. -/
theorem unescape?_of_not_mem {t : Text} (h : '\\' ∉ t) : unescape? t = some (Utf8.encode t) := by
  have hsame : ∀ escape? : Text → Option (Text × Nat),
      readEscapes escape? (fun c => [c]) 0 t = some t := by
    intro escape?
    exact (spells_self h).readEscapes_eq
  rw [unescape?, padHexEscapes?, hsame, Option.bind_eq_bind, Option.bind_some, nameEscapes?, hsame,
    Option.bind_some, byteEscapes?, (spells_of_not_mem h).readEscapes_eq]
  rfl

end TypedOps.Text
