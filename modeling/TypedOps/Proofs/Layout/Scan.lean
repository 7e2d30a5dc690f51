import Mathlib.Algebra.GroupWithZero.Nat
import TypedOps.Layout.Scan
import TypedOps.Proofs.Text.QuoteRuns

/-!
# `TypedOps.Proofs.Layout.Scan`: when a scan agrees with the docstrings written

The scanner carries one bit from line to line: whether a docstring is open. So a
scan of two parts is the scan of the first and the scan of the second from the bit
that `insideAfter` gives (`scanFrom_append`).

Code whose lines are already marked `Agrees` with the scanner when the scan gives
back the marks. Lines without triple quotes agree from the outside and leave the bit
alone; the lines of a docstring agree and lead back outside exactly when their counts
of triple quotes are `Enclosed`. For counts that a delimiter closes, this is a matter
of parity (`enclosed_append_one_iff`).
-/

set_option autoImplicit false

namespace TypedOps.Layout

open Text

/-- Whether a docstring is open behind some lines. It is the bit that `scanFrom` carries. -/
def insideAfter (inside : Bool) : List Text → Bool
  | [] => inside
  | line :: rest => insideAfter (inside != (tripleQuotes line % 2 == 1)) rest

/-- A scan by `scanFrom` marks one line by the bit and its triple quotes, and goes on with the bit
behind it. -/
theorem scanFrom_cons (inside : Bool) (line : Text) (rest : List Text) :
    scanFrom inside (line :: rest) =
      ⟨line, inside || 0 < tripleQuotes line⟩ ::
        scanFrom (inside != (tripleQuotes line % 2 == 1)) rest :=
  rfl

/-- A scan by `scanFrom` of two parts goes on behind the first where that left off. -/
theorem scanFrom_append (inside : Bool) (xs ys : List Text) :
    scanFrom inside (xs ++ ys) = scanFrom inside xs ++ scanFrom (insideAfter inside xs) ys := by
  induction xs generalizing inside with
  | nil => rfl
  | cons line xs ih =>
    rw [List.cons_append, scanFrom_cons, scanFrom_cons, ih, insideAfter]
    rfl

/-- The bit `insideAfter` two parts is the bit after the second, from that after the first on. -/
theorem insideAfter_append (inside : Bool) (xs ys : List Text) :
    insideAfter inside (xs ++ ys) = insideAfter (insideAfter inside xs) ys := by
  induction xs generalizing inside with
  | nil => rfl
  | cons line xs ih =>
    rw [List.cons_append, insideAfter, insideAfter, ih]

/-- A scan by `scanFrom` loses no line and changes the text of none. -/
theorem map_text_scanFrom (inside : Bool) (ls : List Text) :
    (scanFrom inside ls).map ScannedLine.text = ls := by
  induction ls generalizing inside with
  | nil => rfl
  | cons line ls ih =>
    rw [scanFrom_cons, List.map_cons, ih]

/-- The text of a line found by `scan` is one of the lines that were scanned. -/
theorem text_mem_of_mem_scan {ls : List Text} {line : ScannedLine} (h : line ∈ scan ls) :
    line.text ∈ ls := by
  rw [← map_text_scanFrom false ls]
  exact List.mem_map_of_mem h

/-- The bit `insideAfter` lines is flipped by each triple quote, so it depends on their number
alone. -/
theorem insideAfter_eq (inside : Bool) (ls : List Text) :
    insideAfter inside ls = (inside != ((ls.map tripleQuotes).sum % 2 == 1)) := by
  induction ls generalizing inside with
  | nil => simp [insideAfter]
  | cons line ls ih =>
    rw [insideAfter, ih, List.map_cons, List.sum_cons, Nat.add_mod]
    rcases Nat.mod_two_eq_zero_or_one (tripleQuotes line) with hline | hline <;>
      rcases Nat.mod_two_eq_zero_or_one (ls.map tripleQuotes).sum with hrest | hrest <;>
        simp [hline, hrest]

/-! ### Agreement -/

/-- Whether scanning the lines by `scanFrom` gives back their marks. -/
def Agrees (inside : Bool) (marked : List ScannedLine) : Prop :=
  scanFrom inside (marked.map ScannedLine.text) = marked

/-- The scanner `Agrees` with marked lines exactly when it does with the first, and with the rest
behind it. -/
theorem agrees_cons (inside : Bool) (line : ScannedLine) (rest : List ScannedLine) :
    Agrees inside (line :: rest) ↔
      (inside || decide (0 < tripleQuotes line.text)) = line.inDocstring ∧
        Agrees (inside != (tripleQuotes line.text % 2 == 1)) rest := by
  obtain ⟨text, flag⟩ := line
  rw [Agrees, List.map_cons, scanFrom_cons, List.cons.injEq, ScannedLine.mk.injEq, Agrees]
  simp only [true_and]

/-- The scanner `Agrees` with two parts exactly when it does with the first, and with the second
behind it. -/
theorem agrees_append (inside : Bool) (xs ys : List ScannedLine) :
    Agrees inside (xs ++ ys) ↔
      Agrees inside xs ∧ Agrees (insideAfter inside (xs.map ScannedLine.text)) ys := by
  rw [Agrees, List.map_append, scanFrom_append]
  constructor
  · intro h
    -- A scan has as many lines as it is given, so the two halves come apart.
    have hlength : (scanFrom inside (xs.map ScannedLine.text)).length = xs.length := by
      have hmap := congrArg List.length (map_text_scanFrom inside (xs.map ScannedLine.text))
      simpa using hmap
    exact List.append_inj h hlength
  · rintro ⟨hxs, hys⟩
    rw [hxs, hys]

/-- A line without triple quotes does not flip the bit that `scanFrom` carries. -/
theorem bne_bare (inside : Bool) : (inside != (0 % 2 == 1)) = inside := by
  cases inside <;> rfl

/-- Lines without triple quotes leave the scanner where it is, so `insideAfter` is the bit in front
of them. -/
theorem insideAfter_of_bare {ls : List Text} (h : ∀ line ∈ ls, tripleQuotes line = 0)
    (inside : Bool) : insideAfter inside ls = inside := by
  induction ls with
  | nil => rfl
  | cons line ls ih =>
    rw [insideAfter, h line List.mem_cons_self, bne_bare,
      ih fun l hl => h l (List.mem_cons_of_mem line hl)]

/-- Lines without triple quotes are all marked by the bit that `scanFrom` carries. -/
theorem scanFrom_of_bare {ls : List Text} (h : ∀ line ∈ ls, tripleQuotes line = 0)
    (inside : Bool) : scanFrom inside ls = ls.map fun line => ⟨line, inside⟩ := by
  induction ls with
  | nil => rfl
  | cons line ls ih =>
    obtain ⟨hline, hrest⟩ := List.forall_mem_cons.mp h
    rw [scanFrom_cons, hline, bne_bare, ih hrest]
    simp

/-- The scanner `Agrees` with unmarked lines without triple quotes outside docstrings, and only
there. -/
theorem agrees_of_bare_iff {marked : List ScannedLine} (hne : marked ≠ [])
    (hmark : ∀ line ∈ marked, line.inDocstring = false)
    (hbare : ∀ line ∈ marked, tripleQuotes line.text = 0) (inside : Bool) :
    Agrees inside marked ↔ inside = false := by
  induction marked with
  | nil => exact absurd rfl hne
  | cons line rest ih =>
    have hmark' : ∀ l ∈ rest, l.inDocstring = false := fun l hl =>
      hmark l (List.mem_cons_of_mem line hl)
    have hbare' : ∀ l ∈ rest, tripleQuotes l.text = 0 := fun l hl =>
      hbare l (List.mem_cons_of_mem line hl)
    rw [agrees_cons, hmark line List.mem_cons_self, hbare line List.mem_cons_self]
    have hflag : (inside || decide (0 < 0)) = inside := by cases inside <;> rfl
    rw [bne_bare, hflag]
    -- The last line decides alone; any other line says the same as the lines behind it.
    cases rest with
    | nil => simp [Agrees, scanFrom]
    | cons next rest =>
      rw [ih (List.cons_ne_nil _ _) hmark' hbare', and_self]

/-! ### Lines of docstrings -/

/-- Counts of triple quotes, line by line, that keep `scanFrom` inside a docstring or show it a
delimiter, and lead back outside at the end. -/
def Enclosed (inside : Bool) : List Nat → Prop
  | [] => inside = false
  | n :: rest => (inside = true ∨ 0 < n) ∧ Enclosed (inside != (n % 2 == 1)) rest

/-- Lines marked as docstring agree and lead back outside exactly when their counts are `Enclosed`.
-/
theorem agrees_and_outside_iff {marked : List ScannedLine}
    (hmark : ∀ line ∈ marked, line.inDocstring = true) (inside : Bool) :
    Agrees inside marked ∧ insideAfter inside (marked.map ScannedLine.text) = false ↔
      Enclosed inside (marked.map fun line => tripleQuotes line.text) := by
  induction marked generalizing inside with
  | nil => simp [Agrees, scanFrom, insideAfter, Enclosed]
  | cons line rest ih =>
    have hmark' : ∀ l ∈ rest, l.inDocstring = true := fun l hl =>
      hmark l (List.mem_cons_of_mem line hl)
    rw [agrees_cons, hmark line List.mem_cons_self, List.map_cons, List.map_cons, insideAfter,
      Enclosed, ← ih hmark', and_assoc, Bool.or_eq_true, decide_eq_true_eq]

/-- Counts with a delimiter behind them are `Enclosed` exactly when every line without triple quotes
comes behind an even number of them, and there is an even number in all. `k` counts those of the
lines before. -/
theorem enclosed_append_one_iff (k : Nat) (counts : List Nat) :
    Enclosed (k % 2 == 0) (counts ++ [1]) ↔
      (∀ before after, counts = before ++ 0 :: after → (k + before.sum) % 2 = 0) ∧
        (k + counts.sum) % 2 = 0 := by
  -- The scanner is inside exactly while the count so far is even, the opening quotes
  -- not counted. That is the invariant, and `k` carries it along the lines.
  induction counts generalizing k with
  | nil =>
    simp [Enclosed]
  | cons n counts ih =>
    have hbit : ((k % 2 == 0) != (n % 2 == 1)) = ((k + n) % 2 == 0) := by
      rcases Nat.mod_two_eq_zero_or_one k with hk | hk <;>
        rcases Nat.mod_two_eq_zero_or_one n with hn | hn <;>
        simp [Nat.add_mod, hk, hn]
    rw [List.cons_append, Enclosed, hbit, ih, List.sum_cons, ← Nat.add_assoc, ← and_assoc]
    refine and_congr_left fun _ => ?_
    simp only [beq_iff_eq]
    constructor
    · rintro ⟨hfirst, hrest⟩ before after hsplit
      cases before with
      | nil =>
        cases hsplit
        simpa using hfirst
      | cons m before =>
        cases hsplit
        rw [List.sum_cons, ← Nat.add_assoc]
        exact hrest before after rfl
    · intro h
      refine ⟨?_, fun before after hsplit => ?_⟩
      · cases n with
        | zero =>
          have hzero := h [] counts rfl
          exact Or.inl (by simpa using hzero)
        | succ n => exact Or.inr (Nat.succ_pos n)
      · have hmore := h (n :: before) after (by rw [hsplit]; rfl)
        rw [List.sum_cons, ← Nat.add_assoc] at hmore
        exact hmore

end TypedOps.Layout
