import TypedOps.Api.Heredoc
import TypedOps.Proofs.Message.Token
import TypedOps.Proofs.Text.Pieces

/-!
# `TypedOps.Proofs.Api.Heredoc`: blocks become quoted strings

`convertLines` carries a state from line to line, so what it makes of some lines depends
on whether a block is open in front of them. `Converts ls plain` says that no block is
open behind them again: in front of anything, the lines `ls` become the lines `plain`.

* `converts_block`: a block becomes its one quoted line, if no line of its text looks
  like its end. Lines of the text that look like another opening stay text.
* `converts_line`: a line that opens nothing stays.
-/

set_option autoImplicit false

namespace TypedOps.Api.Heredoc

open Text
open Token (isFieldName)

/-- Lines that `convertLines` turns into the lines `plain` outside blocks, whatever stands behind
them. The open end makes it compose (`Converts.append`). -/
def Converts (ls plain : List Text) : Prop :=
  ∀ rest, convertLines .outside (ls ++ rest) = (convertLines .outside rest).map (plain ++ ·)

/-- No lines become no lines, which is where `Converts` starts over a list of groups. -/
theorem converts_nil : Converts [] [] := by
  intro rest
  cases h : convertLines .outside rest <;> simp [h, Except.map]

/-- Lines are converted one group after the other: `Converts` passes from two groups to both in a
row. -/
theorem Converts.append {ls ls' plain plain' : List Text} (h : Converts ls plain)
    (h' : Converts ls' plain') : Converts (ls ++ ls') (plain ++ plain') := by
  intro rest
  rw [List.append_assoc, h, h']
  cases convertLines .outside rest <;> simp [Except.map]

/-- A line that opens no block is kept by `Converts` as it is, where no block is open. -/
theorem converts_line {line : Text} (h : opening? line = none) : Converts [line] [line] := by
  intro rest
  show convertLines .outside (line :: rest) = _
  rw [convertLines, h]
  rfl

/-- Inside a block `convertLines` keeps every line, in reverse, as long as it does not close the
block. The induction is on the lines. -/
theorem convertLines_inside (start : Text) {terminator : Text} {ls : List Text}
    (h : ∀ l ∈ ls, strip l ≠ terminator) (before rest : List Text) :
    convertLines (.inside start terminator before) (ls ++ rest) =
      convertLines (.inside start terminator (ls.reverse ++ before)) rest := by
  induction ls generalizing before with
  | nil => rfl
  | cons l ls ih =>
    rw [List.cons_append, convertLines, if_neg (h l List.mem_cons_self),
      ih fun l' hl' => h l' (List.mem_cons_of_mem l hl')]
    simp

/-! ### Opening lines -/

/-- White space is no part of a word: `isBlank` and `isWord` have no code point in common. -/
theorem isWord_of_isBlank {c : Char} (h : isBlank c = true) : isWord c = false := by
  have hplaces : ((List.range' 9 5 ++ List.range' 28 5 ++ [0x85, 0xA0, 0x1680] ++
      List.range' 0x2000 11 ++ [0x2028, 0x2029, 0x202F, 0x205F, 0x3000]).all
        fun n => !isWord (Char.ofNat n)) = true := by
    decide +kernel
  have hplace := List.all_eq_true.mp hplaces c.toNat (by
    simp only [isBlank, Bool.or_eq_true, Bool.and_eq_true, decide_eq_true_eq, beq_iff_eq] at h
    simp only [List.mem_append, List.mem_range'_1, List.mem_cons, List.not_mem_nil, or_false]
    omega)
  rwa [Char.ofNat_toNat, Bool.not_eq_true'] at hplace

/-- A part of a word is no white space, which is `isWord_of_isBlank` read the other way. -/
theorem isBlank_of_isWord {c : Char} (h : isWord c = true) : isBlank c = false := by
  by_contra hblank
  rw [Bool.not_eq_false] at hblank
  rw [isWord_of_isBlank hblank] at h
  cases h

/-- What `opening?` finds in a line with a named field is decided by what stands behind the colon.
The lemmas on single lines below all begin with this equation. -/
theorem opening?_field_append {indent name gap space rest : Text}
    (hindent : ∀ c ∈ indent, isBlank c = true) (hname : name ≠ [] ∧ ∀ c ∈ name, isWord c = true)
    (hgap : ∀ c ∈ gap, isBlank c = true) (hspace : ∀ c ∈ space, isBlank c = true)
    (hrest : ∀ c ∈ rest.head?, isBlank c = false) :
    opening? (indent ++ (name ++ (gap ++ ':' :: (space ++ rest)))) =
      (afterStart? "<<" rest).bind fun rest =>
        if !(rest.span isWord).1.isEmpty && (rest.span isWord).2.all isBlank then
          some (indent ++ name ++ gap ++ [':'] ++ space, (rest.span isWord).1)
        else none := by
  -- The three spans of the scanner end at the name, at the gap and at the colon, because each part
  -- begins with something that the span in front does not take.
  obtain ⟨c, name, rfl⟩ := List.exists_cons_of_ne_nil hname.1
  have hfirst : isBlank c = false := isBlank_of_isWord (hname.2 c List.mem_cons_self)
  have hbehind : ∀ d ∈ (gap ++ ':' :: (space ++ rest)).head?, isWord d = false := by
    cases gap with
    | nil => simpa using (by decide : isWord ':' = false)
    | cons d gap => simpa using isWord_of_isBlank (hgap d List.mem_cons_self)
  have hcolon : ∀ d ∈ (':' :: (space ++ rest)).head?, isBlank d = false := by
    simpa using (by decide : isBlank ':' = false)
  have hindented : (indent ++ (c :: name ++ (gap ++ ':' :: (space ++ rest)))).span isBlank =
      (indent, c :: name ++ (gap ++ ':' :: (space ++ rest))) :=
    span_append hindent (by simpa using hfirst)
  rw [opening?, hindented]
  simp only [span_append hname.2 hbehind, span_append hgap hcolon, span_append hspace hrest]
  cases afterStart? "<<" rest <;> rfl

/-- The name of a field is a word: `isFieldName` asks for letters, digits and low lines, and for one
at least. -/
theorem isWord_fieldName {key : Text} (hkey : isFieldName key = true) :
    key ≠ [] ∧ ∀ c ∈ key, isWord c = true := by
  cases key with
  | nil => cases hkey
  | cons c tail =>
    simp only [isFieldName, Bool.and_eq_true, List.all_eq_true] at hkey
    exact ⟨List.cons_ne_nil c tail, fun d hd => (hkey.2 d hd).1.1⟩

/-- A field with a string behind it opens no block for `opening?`, since a quotation mark stands
where the mark would. -/
theorem opening?_field {indent key : Text} (hindent : indent.all isBlank = true)
    (hkey : isFieldName key = true) (body : Text) :
    opening? (indent ++ key ++ ": \"" ++ body ++ "\"") = none := by
  have hline : (indent ++ key ++ ": \"" ++ body ++ "\"" : Text) =
      indent ++ (key ++ ([] ++ ':' :: ([' '] ++ '"' :: (body ++ ['"'])))) := by
    simp
  rw [hline, opening?_field_append (List.all_eq_true.mp hindent) (isWord_fieldName hkey) (by simp)
    (by decide) (by simp; decide)]
  rfl

/-- A field that opens a block of fields opens no block of text for `opening?`, since its line has
no colon. -/
theorem opening?_opening {indent key : Text} (hindent : indent.all isBlank = true)
    (hkey : isFieldName key = true) : opening? (indent ++ key ++ " \x7b") = none := by
  obtain ⟨hne, hword⟩ := isWord_fieldName hkey
  obtain ⟨c, tail, rfl⟩ := List.exists_cons_of_ne_nil hne
  have hline : indent ++ c :: tail ++ " \x7b".toList =
      indent ++ (c :: tail ++ ' ' :: ['\x7b']) := List.append_assoc _ _ _
  have hindented : (indent ++ (c :: tail ++ ' ' :: ['\x7b'])).span isBlank =
      (indent, c :: tail ++ ' ' :: ['\x7b']) :=
    span_append (List.all_eq_true.mp hindent)
      (by simpa using isBlank_of_isWord (hword c List.mem_cons_self))
  -- The name is followed by a blank and no colon, so the scanner gives up behind it.
  have hnamed : (c :: tail ++ ' ' :: ['\x7b']).span isWord = (c :: tail, ' ' :: ['\x7b']) :=
    span_append hword (by simpa using (by decide : isWord ' ' = false))
  rw [hline, opening?, hindented]
  simp only [hnamed]
  rfl

/-- A field with the mark behind it opens a block that ends with the word `END`, as written by
`block`. -/
theorem opening?_mark {indent key : Text} (hindent : indent.all isBlank = true)
    (hkey : isFieldName key = true) :
    opening? (indent ++ key ++ ": <<END") = some (indent ++ key ++ ": ", "END".toList) := by
  have hline : indent ++ key ++ ": <<END".toList =
      indent ++ (key ++ ([] ++ ':' :: ([' '] ++ "<<END".toList))) := by
    simp
  rw [hline, opening?_field_append (List.all_eq_true.mp hindent) (isWord_fieldName hkey) (by simp)
    (by decide) (by decide)]
  show some (indent ++ key ++ [] ++ [':'] ++ [' '], "END".toList) = _
  simp

/-! ### Blocks -/

/-- The lines from an opening one to the first that closes it become the one line `quotedLine`, with
`convertLines_inside` for those in between. -/
theorem converts_opened {opening start word closing : Text} {body : List Text}
    (hopening : opening? opening = some (start, word)) (hbody : ∀ l ∈ body, strip l ≠ word)
    (hclosing : strip closing = word) :
    Converts (opening :: (body ++ [closing])) [quotedLine start body] := by
  intro rest
  rw [List.cons_append, List.append_assoc, List.singleton_append, convertLines, hopening]
  simp only [convertLines_inside start hbody]
  rw [convertLines, if_pos hclosing, List.append_nil, List.reverse_reverse]
  rfl

/-- A block written by `block` becomes one line with its text in quotes, if no line of the text
looks like the end of the block. -/
theorem converts_block {indent key t : Text} (hindent : indent.all isBlank = true)
    (hkey : isFieldName key = true) (h : ∀ l ∈ lines t, strip l ≠ "END".toList) :
    Converts (block key t indent) [indent ++ key ++ ": \"" ++ escape t ++ "\""] := by
  have hquoted : quotedLine (indent ++ key ++ ": ") (lines t) =
      indent ++ key ++ ": \"" ++ escape t ++ "\"" := by
    rw [quotedLine, unlines_lines]
    simp
  rw [← hquoted]
  exact converts_opened (opening?_mark hindent hkey) h (by decide)

end TypedOps.Api.Heredoc
