import TypedOps.Proofs.Text.Pieces

/-!
# `TypedOps.Proofs.Text.QuoteRuns`: triple quotes and runs of quotes

Triple quotes are counted from the left and do not overlap, so all that matters
about a text is how long its runs of quotes are: a run of `n` holds `n / 3` of them.
`runInduction` is the induction that goes with this view. A text is a run of quotes
and nothing else, or a run, one other code point and a text.

* `count_eq_zero_iff`: of any pattern, a count of zero means that it stands nowhere.
* `tripleQuotes_append_cons`: any other code point separates the counts.
* `tripleQuotes_flatMap`: rewriting the other code points does not change the count.
* `Untripled` says that no triple quote stands anywhere.
* `strayRuns` counts the runs of five, eight, eleven and so on. They are the ones
  that matter when triple quotes are replaced three quotes at a time.
-/

set_option autoImplicit false

namespace TypedOps.Text

/-- The number of triple quotes in a text, as `count` finds them from the left without overlaps. -/
def tripleQuotes (t : Text) : Nat := count (fill 3 '"') t

/-- The lengths of the runs of quotes around the other code points of a text, after `n` quotes.
Where two others are neighbours the length is zero. -/
def quoteRunsFrom (n : Nat) : Text → List Nat
  | [] => [n]
  | c :: t => if c = '"' then quoteRunsFrom (n + 1) t else n :: quoteRunsFrom 0 t

/-- The lengths of the runs of quotes in a text, which `quoteRunsFrom` counts. -/
def quoteRuns (t : Text) : List Nat := quoteRunsFrom 0 t

/-- Whether a run of `n` quotes holds a triple and leaves two over. -/
def isStray (n : Nat) : Bool := 5 ≤ n && n % 3 == 2

/-- The number of `quoteRuns` that hold a triple and leave two quotes over. -/
def strayRuns (t : Text) : Nat := (quoteRuns t).countP isStray

/-! ### Runs -/

/-- Quotes in front of a text make the first run of `quoteRunsFrom` longer. -/
theorem quoteRunsFrom_fill_append (k n : Nat) (t : Text) :
    quoteRunsFrom k (fill n '"' ++ t) = quoteRunsFrom (k + n) t := by
  induction n generalizing k with
  | zero => rfl
  | succ n ih =>
    show quoteRunsFrom k ('"' :: (fill n '"' ++ t)) = _
    rw [quoteRunsFrom, if_pos rfl, ih, Nat.add_right_comm, Nat.add_assoc]

/-- Induction over the runs of a text. What `tripleQuotes` counts lies inside runs, so a claim about
it is made run by run and not code point by code point. -/
theorem runInduction {P : Text → Prop} (last : ∀ n, P (fill n '"'))
    (run : ∀ n c t, c ≠ '"' → P t → P (fill n '"' ++ c :: t)) (t : Text) : P t := by
  -- The quotes read so far wait in `k`.
  suffices h : ∀ k, P (fill k '"' ++ t) by simpa [fill] using h 0
  induction t with
  | nil =>
    intro k
    simpa using last k
  | cons c t ih =>
    intro k
    by_cases hc : c = '"'
    · subst hc
      have hmove : fill k '"' ++ '"' :: t = fill (k + 1) '"' ++ t := by
        rw [fill, fill, List.replicate_succ', List.append_assoc]
        rfl
      rw [hmove]
      exact ih (k + 1)
    · have ht : P t := by simpa [fill] using ih 0
      exact run k c t hc ht

/-- The `strayRuns` of a text that is one run. -/
theorem strayRuns_fill (n : Nat) : strayRuns (fill n '"') = if isStray n then 1 else 0 := by
  have h := quoteRunsFrom_fill_append 0 n []
  rw [List.append_nil, Nat.zero_add] at h
  rw [strayRuns, quoteRuns, h]
  simp [quoteRunsFrom, List.countP_cons]

/-- The `strayRuns` of a run and of what follows another code point. -/
theorem strayRuns_fill_append_cons (n : Nat) {c : Char} (hc : c ≠ '"') (t : Text) :
    strayRuns (fill n '"' ++ c :: t) = (if isStray n then 1 else 0) + strayRuns t := by
  rw [strayRuns, quoteRuns, quoteRunsFrom_fill_append, Nat.zero_add, quoteRunsFrom, if_neg hc,
    List.countP_cons, Nat.add_comm]
  rfl

/-! ### Counting -/

/-- A beginning is a prefix, so `startsWith` can be reasoned about by the lemmas on prefixes. -/
theorem startsWith_iff_isPrefix (t start : Text) : startsWith t start = true ↔ start <+: t := by
  rw [startsWith]
  induction start generalizing t with
  | nil => simp [afterStart?]
  | cons c start ih =>
    cases t with
    | nil => simp [afterStart?]
    | cons d t =>
      rw [afterStart?, List.cons_prefix_cons]
      split
      · next h => simp [h, ih]
      · next h => simp [h]

/-- An ending is a suffix, so `endsWith` can be reasoned about by the lemmas on suffixes. -/
theorem endsWith_iff_isSuffix (t finish : Text) : endsWith t finish = true ↔ finish <:+ t := by
  rw [endsWith, startsWith_iff_isPrefix, List.reverse_prefix]

/-- The `count` of a pattern is zero exactly when the pattern stands nowhere in the text. -/
theorem count_eq_zero_iff {pattern : Text} (hne : pattern ≠ []) (t : Text) :
    count pattern t = 0 ↔ ¬pattern <:+: t := by
  induction t with
  | nil => simp [count, countFrom, hne]
  | cons c t ih =>
    rw [List.infix_cons_iff, not_or, ← ih, ← startsWith_iff_isPrefix]
    -- While nothing is found the count only moves on, so no overlap can hide an occurrence.
    rw [count, countFrom]
    split
    · next h => simp [h]
    · next h => simp [h, count]

/-- For `count`, no occurrence begins where the first code point of the pattern does not stand. -/
theorem count_append_of_not_mem {c : Char} {pattern s : Text} (h : c ∉ s) (t : Text) :
    count (c :: pattern) (s ++ t) = count (c :: pattern) t := by
  rw [count, count]
  induction s with
  | nil => rfl
  | cons d s ih =>
    rw [List.mem_cons, not_or] at h
    have hother : ¬startsWith (d :: (s ++ t)) (c :: pattern) = true := by
      rw [startsWith_iff_isPrefix, List.cons_prefix_cons]
      exact fun hstart => h.1 hstart.1
    rw [List.cons_append, countFrom, if_neg hother, ih h.2]

/-! ### Counting triple quotes -/

/-- For `tripleQuotes`, what does not begin with a quote ends a run. -/
theorem tripleQuotes_fill_append (n : Nat) {rest : Text} (h : rest.head? ≠ some '"') :
    tripleQuotes (fill n '"' ++ rest) = n / 3 + tripleQuotes rest := by
  -- The count goes on three quotes at a time, so the recursion does too. Fewer than
  -- three in front of anything else are passed over.
  match n with
  | 0 => simp [fill]
  | 1 =>
    cases rest with
    | nil => rfl
    | cons d rest =>
      have hd : ¬ '"' = d := fun hd => h (by rw [hd]; rfl)
      simp [fill, tripleQuotes, count, countFrom, startsWith, afterStart?, List.replicate, hd]
  | 2 =>
    cases rest with
    | nil => rfl
    | cons d rest =>
      have hd : ¬ '"' = d := fun hd => h (by rw [hd]; rfl)
      simp [fill, tripleQuotes, count, countFrom, startsWith, afterStart?, List.replicate, hd]
  | n + 3 =>
    have ih := tripleQuotes_fill_append n h
    have hstep : tripleQuotes (fill (n + 3) '"' ++ rest) =
        tripleQuotes (fill n '"' ++ rest) + 1 := by
      simp [fill, tripleQuotes, count, countFrom, startsWith, afterStart?, List.replicate]
    rw [hstep, ih]
    omega

/-- A run of `n` quotes holds a third of `n` triples. -/
theorem tripleQuotes_fill (n : Nat) : tripleQuotes (fill n '"') = n / 3 := by
  have hend : ([] : Text).head? ≠ some '"' := by simp
  have h := tripleQuotes_fill_append n hend
  rw [List.append_nil] at h
  exact h

/-- A code point other than the quote adds nothing to the `tripleQuotes`. -/
theorem tripleQuotes_cons {c : Char} (hc : c ≠ '"') (t : Text) :
    tripleQuotes (c :: t) = tripleQuotes t := by
  have hc : ¬ '"' = c := Ne.symm hc
  simp [tripleQuotes, count, countFrom, startsWith, fill, List.replicate, afterStart?, hc]

/-- A code point other than the quote separates the `tripleQuotes` on its two sides. -/
theorem tripleQuotes_append_cons (s : Text) {c : Char} (hc : c ≠ '"') (t : Text) :
    tripleQuotes (s ++ c :: t) = tripleQuotes s + tripleQuotes t := by
  have hend : (c :: t).head? ≠ some '"' := by simpa using hc
  -- Plain induction would stop inside a run, where a count of the rest says little.
  induction s using runInduction with
  | last n =>
    rw [tripleQuotes_fill_append n hend, tripleQuotes_fill, tripleQuotes_cons hc]
  | run n d s hd ih =>
    rw [List.append_assoc, List.cons_append,
      tripleQuotes_fill_append n (by simpa using hd), tripleQuotes_cons hd, ih,
      tripleQuotes_fill_append n (by simpa using hd), tripleQuotes_cons hd, Nat.add_assoc]

/-- A text without quotes adds nothing to the `tripleQuotes` of what stands behind it. -/
theorem tripleQuotes_append_of_not_mem {s : Text} (h : '"' ∉ s) (t : Text) :
    tripleQuotes (s ++ t) = tripleQuotes t := count_append_of_not_mem h t

/-- To rewrite the other code points, each to something without quotes, keeps the `tripleQuotes`.
None may vanish, or two runs would become one. -/
theorem tripleQuotes_flatMap {f : Char → Text} (hquote : f '"' = ['"'])
    (hother : ∀ c, c ≠ '"' → f c ≠ [] ∧ '"' ∉ f c) (t : Text) :
    tripleQuotes (t.flatMap f) = tripleQuotes t := by
  have hrun : ∀ n, (fill n '"').flatMap f = fill n '"' := by
    intro n
    induction n with
    | zero => rfl
    | succ n ih =>
      show ('"' :: fill n '"').flatMap f = '"' :: fill n '"'
      rw [List.flatMap_cons, hquote, ih]
      rfl
  induction t using runInduction with
  | last n => rw [hrun]
  | run n c t hc ih =>
    obtain ⟨hne, hfree⟩ := hother c hc
    rw [List.flatMap_append, List.flatMap_cons, hrun, tripleQuotes_append_cons _ hc]
    -- The first code point written for `c` ends the run as `c` did.
    cases hf : f c with
    | nil => exact absurd hf hne
    | cons d s =>
      rw [hf] at hfree
      simp only [List.mem_cons, not_or] at hfree
      rw [List.cons_append, tripleQuotes_append_cons _ (Ne.symm hfree.1),
        tripleQuotes_append_of_not_mem hfree.2, ih]

/-- The number of `tripleQuotes` is zero exactly when no triple quote stands anywhere in the text.
-/
theorem tripleQuotes_eq_zero_iff (t : Text) : tripleQuotes t = 0 ↔ ¬fill 3 '"' <:+: t :=
  count_eq_zero_iff (List.cons_ne_nil _ _) t

/-- A text in which no triple quote stands anywhere, so that it has no `tripleQuotes`. -/
def Untripled (t : Text) : Prop := ¬fill 3 '"' <:+: t

/-- An `Untripled` text is one with a count of zero. -/
theorem untripled_iff (t : Text) : Untripled t ↔ tripleQuotes t = 0 :=
  (tripleQuotes_eq_zero_iff t).symm

/-- A part of a text has no `tripleQuotes` if the text has none. -/
theorem tripleQuotes_of_isInfix {s t : Text} (h : s <:+: t) (ht : tripleQuotes t = 0) :
    tripleQuotes s = 0 := by
  rw [tripleQuotes_eq_zero_iff] at ht ⊢
  exact fun hs => ht (hs.trans h)

/-- Two quotes make no `tripleQuotes`, wherever they stand. -/
theorem tripleQuotes_of_count_le {t : Text} (h : List.count '"' t ≤ 2) : tripleQuotes t = 0 := by
  rw [tripleQuotes_eq_zero_iff]
  intro hinfix
  have hthree : List.count '"' (fill 3 '"') ≤ List.count '"' t := hinfix.sublist.count_le _
  have hcount : List.count '"' (fill 3 '"') = 3 := by decide
  omega

/-- A text without `tripleQuotes` has no stray run. -/
theorem strayRuns_of_tripleQuotes {t : Text} (h : tripleQuotes t = 0) : strayRuns t = 0 := by
  -- A stray run has at least three quotes, and so a triple quote.
  have hshort : ∀ n : Nat, n / 3 = 0 → isStray n = false := by
    intro n hn
    simp [isStray]
    omega
  -- The induction takes the runs of quotes one by one.
  induction t using runInduction with
  | last n =>
    rw [tripleQuotes_fill] at h
    rw [strayRuns_fill, hshort n h]
    rfl
  | run n c t hc ih =>
    rw [tripleQuotes_append_cons _ hc, tripleQuotes_fill] at h
    rw [strayRuns_fill_append_cons n hc, hshort n (by omega), ih (by omega)]
    rfl

end TypedOps.Text
