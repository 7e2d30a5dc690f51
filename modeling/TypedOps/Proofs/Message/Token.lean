import TypedOps.Message.Token
import TypedOps.Proofs.Text.Unescape

/-!
# `TypedOps.Proofs.Message.Token`: the tokens of a written line

A line written as a field name, a colon and a quoted string is cut into just these three
tokens (`ofLine_field`). Names are taken from `isFieldName`, which the writers of this
library satisfy by `decide`. A body may stand between the quotes if it is `Carried`: the
reader goes through it without meeting its end and without looking behind it. Texts
without quotes and backslashes are carried, and so is every escaped text
(`carried_escape`).
-/

set_option autoImplicit false

namespace TypedOps.Token

open Text

/-- Whether a text can be the name of a field, in a line of the text format and in one that opens a
block. Such a text is a single `Token`. -/
def isFieldName : Text → Bool
  | [] => false
  | c :: tail =>
    isWordHead c && tail.all isWordTail &&
      (c :: tail).all fun d => isWord d && !isBlank d && d != '#'

/-! ### Cutting a line -/

/-- Code points that a token takes are passed over by `ofLineFrom` before the next one is read. -/
theorem ofLineFrom_skip (taken rest : Text) :
    ofLineFrom taken.length (taken ++ rest) = ofLine rest := by
  induction taken with
  | nil => rfl
  | cons c taken ih => exact ih

/-- White space in front of a line is no token for `ofLine`. -/
theorem ofLine_blank {indent : Text} (h : indent.all isBlank = true) (rest : Text) :
    ofLine (indent ++ rest) = ofLine rest := by
  induction indent with
  | nil => rfl
  | cons c indent ih =>
    simp only [List.all_cons, Bool.and_eq_true] at h
    show ofLineFrom 0 (c :: (indent ++ rest)) = _
    rw [ofLineFrom, if_pos h.1]
    exact ih h.2

/-- A code point that is no white space and no comment sign begins the token that `front` reads. -/
theorem ofLine_front {c : Char} (hblank : isBlank c = false) (hcomment : c ≠ '#') {t : Token}
    {taken : Text} {rest : Text} (h : front c (taken ++ rest) = (t, taken.length)) :
    ofLine (c :: taken ++ rest) = t :: ofLine rest := by
  show ofLineFrom 0 (c :: (taken ++ rest)) = _
  rw [ofLineFrom, if_neg (by simp [hblank]), if_neg hcomment, h, ofLineFrom_skip]

/-- A field name is one token for `ofLine`, in front of anything that cannot belong to it. -/
theorem ofLine_fieldName {key : Text} (hkey : isFieldName key = true) {d : Char}
    (hd : isWordTail d = false) (rest : Text) :
    ofLine (key ++ d :: rest) = .word key :: ofLine (d :: rest) := by
  cases key with
  | nil => cases hkey
  | cons c tail =>
    simp only [isFieldName, List.all_cons, Bool.and_eq_true, Bool.not_eq_true', bne_iff_ne,
      ne_eq] at hkey
    obtain ⟨⟨hhead, htail⟩, ⟨⟨-, hblank⟩, hcomment⟩, -⟩ := hkey
    refine ofLine_front hblank hcomment ?_
    have htake : (tail ++ d :: rest).takeWhile isWordTail = tail := by
      rw [List.takeWhile_append_of_pos (List.all_eq_true.mp htail),
        List.takeWhile_cons_of_neg (by simp [hd]), List.append_nil]
    rw [front, if_pos hhead, htake]

/-! ### Strings -/

/-- A body that the reader of a string, `stringBody`, goes through, whatever stands behind it. -/
def Carried (body : Text) : Prop :=
  ∀ rest, stringBody '"' (body ++ rest) =
    (body ++ (stringBody '"' rest).1, (stringBody '"' rest).2.1,
      body.length + (stringBody '"' rest).2.2)

/-- The empty body is `Carried`. -/
theorem carried_nil : Carried [] := by
  intro rest
  simp

/-- Two `Carried` bodies in a row are one. -/
theorem Carried.append {s t : Text} (hs : Carried s) (ht : Carried t) : Carried (s ++ t) := by
  intro rest
  rw [List.append_assoc, hs, ht, List.length_append, List.append_assoc, Nat.add_assoc]

/-- Bodies made for several code points are `Carried` one after the other. -/
theorem carried_flatMap {f : Char → Text} {t : Text} (h : ∀ c ∈ t, Carried (f c)) :
    Carried (t.flatMap f) :=
  holds_flatMap carried_nil Carried.append h

/-- A code point other than the quote and the backslash is `Carried` by itself. -/
theorem carried_singleton {c : Char} (hquote : c ≠ '"') (hback : c ≠ '\\') : Carried [c] := by
  intro rest
  show stringBody '"' (c :: rest) = _
  simp [stringBody, hquote, hback, Nat.add_comm]

/-- A text without quotes and backslashes is `Carried`. -/
theorem carried_of_not_mem {t : Text} (hquote : '"' ∉ t) (hback : '\\' ∉ t) : Carried t := by
  have hall : ∀ c ∈ t, Carried [c] := by
    intro c hc
    refine carried_singleton ?_ ?_
    · rintro rfl
      exact hquote hc
    · rintro rfl
      exact hback hc
  simpa using carried_flatMap hall

/-- A backslash and the code point behind it are `Carried` as one, also if that is a quote. -/
theorem carried_pair (c : Char) : Carried ['\\', c] := by
  intro rest
  show stringBody '"' ('\\' :: c :: rest) = _
  simp [stringBody, Nat.add_comm]

/-- An escaped text is `Carried`, since all quotes in it stand behind backslashes. -/
theorem carried_escape (t : Text) : Carried (escape t) := by
  refine carried_flatMap fun c _ => ?_
  rcases escapedChar_cases c with ⟨hfree, hbare⟩ | ⟨d, tail, hwritten, -, htail, -⟩
  · simp only [List.mem_cons, List.not_mem_nil, or_false, not_or] at hfree
    rw [hbare]
    exact carried_singleton hfree.2.1 hfree.2.2
  · rw [hwritten]
    have hrest : Carried tail :=
      carried_of_not_mem (fun hmem => absurd (htail _ hmem) (by decide))
        (fun hmem => absurd (htail _ hmem) (by decide))
    exact (carried_pair d).append hrest

/-- A `Carried` body between quotes is one token. -/
theorem ofLine_string {body : Text} (h : Carried body) (rest : Text) :
    ofLine ('"' :: body ++ '"' :: rest) = .string '"' body true :: ofLine rest := by
  have hend : stringBody '"' ('"' :: rest) = ([], true, 1) := rfl
  have hfront : front '"' ((body ++ ['"']) ++ rest) =
      (.string '"' body true, (body ++ ['"']).length) := by
    have hbody := h ('"' :: rest)
    rw [hend, List.append_nil] at hbody
    have hquote : ∀ t, front '"' t = (.string '"' (stringBody '"' t).1 (stringBody '"' t).2.1,
        (stringBody '"' t).2.2) := fun _ => rfl
    rw [hquote, List.append_assoc, List.singleton_append, hbody, List.length_append]
    rfl
  have hcut := ofLine_front (by decide) (by decide) hfront
  rw [← hcut]
  simp

/-! ### Written lines -/

/-- A line with a field and a string behind it is read by `ofLine` as three tokens. -/
theorem ofLine_field {indent key body : Text} (hindent : indent.all isBlank = true)
    (hkey : isFieldName key = true) (hbody : Carried body) :
    ofLine (indent ++ key ++ ": \"" ++ body ++ "\"") =
      [.word key, .symbol ':', .string '"' body true] := by
  have hline : indent ++ key ++ ": \"" ++ body ++ "\"" =
      indent ++ (key ++ ':' :: ' ' :: ('"' :: body ++ '"' :: [])) := by
    simp
  have hcolon : ofLine (':' :: ' ' :: ('"' :: body ++ '"' :: [])) =
      .symbol ':' :: ofLine ('"' :: body ++ '"' :: []) := rfl
  rw [hline, ofLine_blank hindent, ofLine_fieldName hkey (by decide), hcolon, ofLine_string hbody]
  rfl

/-- A line with a field that opens a block is read by `ofLine` as two tokens. -/
theorem ofLine_opening {indent key : Text} (hindent : indent.all isBlank = true)
    (hkey : isFieldName key = true) :
    ofLine (indent ++ key ++ " \x7b") = [.word key, .symbol '\x7b'] := by
  rw [List.append_assoc, ofLine_blank hindent]
  exact ofLine_fieldName hkey (by decide) ['\x7b']

end TypedOps.Token
