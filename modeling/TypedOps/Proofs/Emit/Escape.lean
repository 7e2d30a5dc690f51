import TypedOps.Emit.Docstring
import TypedOps.Proofs.Text.Plain

/-!
# `TypedOps.Proofs.Emit.Escape`: what is left of triple quotes in a docstring line

`escapedDocLine` replaces triple quotes from the left, three quotes at a time. A run
of `n` quotes becomes `n / 3` escaped triples with `n % 3` bare quotes behind them
(`escapedRun`). The last quote of an escaped triple has no backslash behind it, so
two bare quotes there make a triple quote again. This happens exactly in the runs
that `strayRuns` counts, and the other code points neither add nor hide one:

* `tripleQuotes_escapedDocLine`: as many triple quotes are left as there are stray
  runs.
* `tripleQuotes_tripleQuote_append`: behind opening quotes there is one more.
* `tripleQuote_isInfix_iff`: some triple quote is left exactly when a run is stray.
-/

set_option autoImplicit false

namespace TypedOps

open Text

/-- What a run of quotes becomes in `escaped`: each full triple is escaped, and the one or two
quotes left over stay. -/
def escapedRun (n : Nat) : Text :=
  (List.replicate (n / 3) ("\\\"\\\"\\\"" : Text)).flatten ++ fill (n % 3) '"'

/-- What a code point other than a quote becomes in `escaped`: backslashes are doubled and control
characters written out. -/
def escapedOther (c : Char) : Text :=
  (if c = '\\' then ['\\', '\\'] else [c]).flatMap escapedControl

/-! ### Control characters and backslashes -/

/-- A control character is written out by `escapedControl`, in more than nothing and without quotes
or line feeds, and anything else stays. -/
theorem escapedControl_cases (c : Char) :
    escapedControl c = [c] ∨
      c ≠ '"' ∧ escapedControl c ≠ [] ∧ ∀ d ∈ escapedControl c, d ≠ '"' ∧ d ≠ '\n' := by
  simp only [escapedControl]
  split
  · next hcontrol =>
    refine Or.inr ⟨?_, by simp, ?_⟩
    · -- A quote is no control character.
      rintro rfl
      revert hcontrol
      decide
    · intro d hd
      have hmark : Plain "\\x" := by decide
      rcases List.mem_append.mp hd with hd | hd
      · exact hmark d hd
      · exact plain_padded 16 2 c.toNat d hd
  · exact Or.inl rfl

/-- What `escapedOther` makes of a code point is not empty and holds no quote. -/
theorem escapedOther_free {c : Char} (hc : c ≠ '"') :
    escapedOther c ≠ [] ∧ '"' ∉ escapedOther c := by
  have hcontrol : ∀ d, d ≠ '"' → escapedControl d ≠ [] ∧ '"' ∉ escapedControl d := by
    intro d hd
    rcases escapedControl_cases d with h | ⟨-, hne, hfree⟩
    · simp [h, Ne.symm hd]
    · exact ⟨hne, fun hmem => (hfree _ hmem).1 rfl⟩
  rw [escapedOther]
  split
  · decide
  · simpa using hcontrol c hc

/-- Replacing a single code point rewrites each occurrence for itself, so it is a `flatMap`. -/
theorem replace_singleton (c : Char) (replacement t : Text) :
    replace [c] replacement t = t.flatMap fun d => if d = c then replacement else [d] := by
  rw [replace]
  induction t with
  | nil => rfl
  | cons d t ih =>
    rw [replaceFrom, List.flatMap_cons]
    by_cases hd : d = c
    · simpa [startsWith, afterStart?, hd] using ih
    · simpa [startsWith, afterStart?, hd, Ne.symm hd] using ih

/-! ### Runs of quotes -/

/-- Replacing triple quotes in a run of quotes that ends gives `escapedRun`, and goes on behind the
run. -/
theorem replace_fill_append (n : Nat) {rest : Text} (h : rest.head? ≠ some '"') :
    replace tripleQuote "\\\"\\\"\\\"" (fill n '"' ++ rest) =
      escapedRun n ++ replace tripleQuote "\\\"\\\"\\\"" rest := by
  -- Replacing goes on three quotes at a time, and so does `escapedRun`.
  match n with
  | 0 => rfl
  | 1 =>
    cases rest with
    | nil => rfl
    | cons d rest =>
      have hd : ¬ '"' = d := fun hd => h (by rw [hd]; rfl)
      simp [fill, tripleQuote, replace, replaceFrom, startsWith, afterStart?, List.replicate, hd,
        escapedRun]
  | 2 =>
    cases rest with
    | nil => rfl
    | cons d rest =>
      have hd : ¬ '"' = d := fun hd => h (by rw [hd]; rfl)
      simp [fill, tripleQuote, replace, replaceFrom, startsWith, afterStart?, List.replicate, hd,
        escapedRun]
  | n + 3 =>
    have ih := replace_fill_append n h
    have hstep : replace tripleQuote "\\\"\\\"\\\"" (fill (n + 3) '"' ++ rest) =
        "\\\"\\\"\\\"" ++ replace tripleQuote "\\\"\\\"\\\"" (fill n '"' ++ rest) := by
      simp [fill, tripleQuote, replace, replaceFrom, startsWith, afterStart?, List.replicate]
    have hrun : escapedRun (n + 3) = "\\\"\\\"\\\"" ++ escapedRun n := by
      rw [escapedRun, Nat.add_div_right n (by omega), List.replicate_succ, List.flatten_cons,
        Nat.add_mod_right, List.append_assoc]
      rfl
    rw [hstep, ih, hrun, List.append_assoc]

/-- An `escapedRun` of quotes consists of backslashes and quotes. -/
theorem mem_escapedRun {n : Nat} {c : Char} (h : c ∈ escapedRun n) : c = '\\' ∨ c = '"' := by
  have htriple : ∀ c ∈ ("\\\"\\\"\\\"" : Text), c = '\\' ∨ c = '"' := by decide
  rcases List.mem_append.mp h with h | h
  · obtain ⟨piece, hpiece, h⟩ := List.mem_flatten.mp h
    exact htriple c (List.eq_of_mem_replicate hpiece ▸ h)
  · exact .inr (List.eq_of_mem_replicate h)

/-- The code points of an `escapedRun` are no control characters, so they stay as they are. -/
theorem flatMap_escapedControl_escapedRun (n : Nat) :
    (escapedRun n).flatMap escapedControl = escapedRun n := by
  have hsame : ∀ c ∈ escapedRun n, escapedControl c = [c] := by
    intro c hc
    rcases mem_escapedRun hc with rfl | rfl <;> decide
  generalize escapedRun n = t at hsame
  induction t with
  | nil => rfl
  | cons c t ih =>
    rw [List.flatMap_cons, hsame c List.mem_cons_self,
      ih fun d hd => hsame d (List.mem_cons_of_mem _ hd)]
    rfl

/-- Doubling backslashes leaves a run of quotes, made by `fill`, alone. -/
theorem flatMap_double_fill (n : Nat) :
    (fill n '"').flatMap (fun d => if d = '\\' then ['\\', '\\'] else [d]) = fill n '"' := by
  induction n with
  | zero => rfl
  | succ n ih =>
    show ('"' :: fill n '"').flatMap _ = '"' :: fill n '"'
    rw [List.flatMap_cons, ih]
    rfl

/-- A line that is one run of quotes is written as its `escapedRun`. -/
theorem escapedDocLine_fill (n : Nat) : escapedDocLine (fill n '"') = escapedRun n := by
  have hend : ([] : Text).head? ≠ some '"' := by simp
  have h := replace_fill_append n hend
  rw [List.append_nil] at h
  rw [escapedDocLine, replace_singleton, flatMap_double_fill, h,
    show replace tripleQuote "\\\"\\\"\\\"" [] = [] from rfl, List.append_nil,
    flatMap_escapedControl_escapedRun]

/-- The `escapedDocLine` of a run of quotes followed by another code point is made part by part. It
is the step of all inductions over a line. -/
theorem escapedDocLine_fill_append_cons (n : Nat) {c : Char} (hc : c ≠ '"') (t : Text) :
    escapedDocLine (fill n '"' ++ c :: t) =
      escapedRun n ++ (escapedOther c ++ escapedDocLine t) := by
  have hskip : ∀ d, d ≠ '"' → ∀ s, replace tripleQuote "\\\"\\\"\\\"" (d :: s) =
      d :: replace tripleQuote "\\\"\\\"\\\"" s := by
    intro d hd s
    have hd : ¬ '"' = d := Ne.symm hd
    simp [tripleQuote, replace, replaceFrom, startsWith, afterStart?, fill, List.replicate, hd]
  have hback : ('\\' : Char) ≠ '"' := by decide
  rw [escapedDocLine, replace_singleton, List.flatMap_append, flatMap_double_fill,
    List.flatMap_cons, escapedDocLine, replace_singleton, escapedOther]
  -- Doubled or not, what stands for `c` at this stage begins with no quote, so the run
  -- in front of it ends there.
  by_cases hslash : c = '\\'
  · rw [if_pos hslash, List.cons_append, replace_fill_append n (by simp), hskip _ hback,
      List.cons_append, hskip _ hback, List.flatMap_append, flatMap_escapedControl_escapedRun]
    simp [List.flatMap_cons]
  · rw [if_neg hslash, List.cons_append, replace_fill_append n (by simpa using hc), hskip _ hc,
      List.flatMap_append, flatMap_escapedControl_escapedRun]
    simp [List.flatMap_cons]

/-! ### Triple quotes left over -/

/-- A single quote in front of the backslash of an escaped triple stays single, so `tripleQuotes`
counts on behind it. -/
theorem tripleQuotes_escapedTriple (t : Text) :
    tripleQuotes (("\\\"\\\"\\\"" : Text) ++ t) = tripleQuotes ('"' :: t) := by
  have hback : ('\\' : Char) ≠ '"' := by decide
  have hone : tripleQuotes ['"'] = 0 := by decide
  show tripleQuotes ('\\' :: ['"'] ++ '\\' :: ['"'] ++ '\\' :: '"' :: t) = _
  rw [tripleQuotes_append_cons _ hback, tripleQuotes_append_cons _ hback,
    tripleQuotes_cons hback, hone]
  omega

/-- Escaped triples in front of two quotes leave a triple quote, and no other run does: that is what
`isStray` says. -/
theorem tripleQuotes_escapedRun_append (n : Nat) {rest : Text} (h : rest.head? ≠ some '"') :
    tripleQuotes (escapedRun n ++ rest) = (if isStray n then 1 else 0) + tripleQuotes rest := by
  -- The last quote of the last escaped triple joins the bare ones behind it.
  have hrow : ∀ k r, tripleQuotes ((List.replicate (k + 1)
      ("\\\"\\\"\\\"" : Text)).flatten ++ (fill r '"' ++ rest)) =
        (r + 1) / 3 + tripleQuotes rest := by
    intro k r
    induction k with
    | zero =>
      rw [show (List.replicate (0 + 1) ("\\\"\\\"\\\"" : Text)).flatten = "\\\"\\\"\\\""
        from rfl, tripleQuotes_escapedTriple]
      exact tripleQuotes_fill_append (r + 1) h
    | succ k ih =>
      rw [List.replicate_succ, List.flatten_cons, List.append_assoc, tripleQuotes_escapedTriple,
        ← ih]
      -- The next triple begins with a backslash.
      have hback : ('\\' : Char) ≠ '"' := by decide
      exact (tripleQuotes_append_cons ['"'] hback _).trans (by
        rw [show tripleQuotes ['"'] = 0 from rfl, Nat.zero_add]
        exact (tripleQuotes_cons hback _).symm)
  rw [escapedRun, List.append_assoc]
  cases hk : n / 3 with
  | zero =>
    have hshort : isStray n = false := by
      simp [isStray]
      omega
    rw [hshort]
    simpa [show n % 3 / 3 = 0 by omega] using tripleQuotes_fill_append (n % 3) h
  | succ k =>
    -- With an escaped triple in front, two bare quotes make a third with its last one.
    have hstray : isStray n = true ↔ n % 3 = 2 := by
      simp [isStray]
      omega
    rw [hrow]
    split
    · next hs =>
      rw [hstray] at hs
      rw [hs]
    · next hs =>
      rw [hstray] at hs
      rw [show (n % 3 + 1) / 3 = 0 by omega]

/-- What `escapedOther` makes of a code point does not begin with a quote, so a run in front of it
ends there. -/
theorem head?_escapedOther_append {c : Char} (hc : c ≠ '"') (t : Text) :
    (escapedOther c ++ t).head? ≠ some '"' := by
  obtain ⟨hne, hfree⟩ := escapedOther_free hc
  cases hother : escapedOther c with
  | nil => exact absurd hother hne
  | cons d s =>
    rw [hother] at hfree
    simp only [List.mem_cons, not_or] at hfree
    simpa using Ne.symm hfree.1

/-- As many `tripleQuotes` are left in an escaped line as the line has `strayRuns`. -/
theorem tripleQuotes_escapedDocLine (line : Text) :
    tripleQuotes (escapedDocLine line) = strayRuns line := by
  induction line using runInduction with
  | last n =>
    have hend : ([] : Text).head? ≠ some '"' := by simp
    have h := tripleQuotes_escapedRun_append n hend
    rw [List.append_nil] at h
    rw [escapedDocLine_fill, h, strayRuns_fill]
    rfl
  | run n c t hc ih =>
    rw [escapedDocLine_fill_append_cons n hc,
      tripleQuotes_escapedRun_append n (head?_escapedOther_append hc _),
      tripleQuotes_append_of_not_mem (escapedOther_free hc).2, ih,
      strayRuns_fill_append_cons n hc]

/-- A triple quote is left in an `escapedDocLine` exactly when the line has a stray run. -/
theorem tripleQuote_isInfix_iff (line : Text) :
    tripleQuote <:+: escapedDocLine line ↔ 0 < strayRuns line := by
  have h := tripleQuotes_eq_zero_iff (escapedDocLine line)
  rw [tripleQuotes_escapedDocLine] at h
  rw [Nat.pos_iff_ne_zero, ne_eq, h, Classical.not_not]
  rfl

/-- Opening quotes in front of an `escapedRun` never join it to a second triple quote. -/
theorem tripleQuotes_open_escapedRun (n : Nat) {rest : Text} (h : rest.head? ≠ some '"') :
    tripleQuotes (tripleQuote ++ (escapedRun n ++ rest)) =
      1 + tripleQuotes (escapedRun n ++ rest) := by
  cases hk : n / 3 with
  | zero =>
    -- A run shorter than three is left bare and joins the opening quotes: still one triple.
    have hrun : escapedRun n = fill n '"' := by
      rw [escapedRun, hk, show n % 3 = n by omega]
      rfl
    have hjoin : tripleQuote ++ (fill n '"' ++ rest) = fill (3 + n) '"' ++ rest := by
      rw [tripleQuote, ← List.append_assoc, fill, fill, fill, List.replicate_append_replicate]
    rw [hrun, hjoin, tripleQuotes_fill_append _ h, tripleQuotes_fill_append _ h]
    omega
  | succ k =>
    -- A longer run begins with a backslash.
    have hhead : (escapedRun n ++ rest).head? ≠ some '"' := by
      rw [escapedRun, hk, List.replicate_succ]
      simp
    exact tripleQuotes_fill_append 3 hhead

/-- Behind opening quotes there is one triple quote more than the line has `strayRuns`. -/
theorem tripleQuotes_tripleQuote_append (line : Text) :
    tripleQuotes (tripleQuote ++ escapedDocLine line) = 1 + strayRuns line := by
  rw [← tripleQuotes_escapedDocLine]
  induction line using runInduction with
  | last n =>
    have hend : ([] : Text).head? ≠ some '"' := by simp
    have h := tripleQuotes_open_escapedRun n hend
    rw [List.append_nil] at h
    rw [escapedDocLine_fill, h]
  | run n c t hc ih =>
    rw [escapedDocLine_fill_append_cons n hc]
    exact tripleQuotes_open_escapedRun n (head?_escapedOther_append hc _)

/-! ### Line feeds -/

/-- Every code point behind `replaceFrom` was in the text or is in the replacement. -/
theorem mem_of_mem_replaceFrom {pattern replacement t : Text} {skip : Nat} {c : Char}
    (h : c ∈ replaceFrom pattern replacement skip t) : c ∈ t ∨ c ∈ replacement := by
  -- Both the code points that are passed over and those that stay are of the text, so the induction
  -- is on the text for every `skip`.
  induction t generalizing skip with
  | nil =>
    cases skip <;> simp [replaceFrom] at h
  | cons d t ih =>
    have hlater : ∀ skip, c ∈ replaceFrom pattern replacement skip t →
        c ∈ d :: t ∨ c ∈ replacement := fun skip h =>
      (ih h).imp_left (List.mem_cons_of_mem d)
    cases skip with
    | succ skip => exact hlater skip h
    | zero =>
      rw [replaceFrom] at h
      split at h
      · rcases List.mem_append.mp h with h | h
        · exact Or.inr h
        · exact hlater _ h
      · rcases List.mem_cons.mp h with rfl | h
        · exact Or.inl List.mem_cons_self
        · exact hlater 0 h

/-- The `escapedDocLine` of a text on one line is on one line: a line feed is never added. -/
theorem oneLine_escapedDocLine {line : Text} (h : OneLine line) :
    OneLine (escapedDocLine line) := by
  intro hmem
  obtain ⟨d, hd, hfeed⟩ := List.mem_flatMap.mp hmem
  have hfeed : d = '\n' := by
    rcases escapedControl_cases d with hsame | ⟨-, -, hfree⟩
    · rw [hsame, List.mem_singleton] at hfeed
      exact hfeed.symm
    · exact absurd rfl (hfree _ hfeed).2
  subst hfeed
  have hdoubled := (mem_of_mem_replaceFrom hd).resolve_right (by decide)
  exact h ((mem_of_mem_replaceFrom hdoubled).resolve_right (by decide))

end TypedOps
