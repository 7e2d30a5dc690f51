import TypedOps.Proofs.Layout.Arguments
import TypedOps.Proofs.Layout.Wrap

/-!
# `TypedOps.Proofs.Layout.Lossless`: wrapping moves white space and adds a comma

Deleting all white space (`squeezed`) undoes what wrapping does to the shape of a line. What is left
to compare are the code points that mean something. An item that is blank is lost, and its comma
with it; a list is `Filled` when it has none but, at most, behind its last comma.

`squeezed_wrapLine` says that nothing else happens: whatever the line is, and however its brackets
and quotes go wrong, the lines it is wrapped into are the line up to white space, with one comma
more in front of the closing bracket of the list or with none.
-/

set_option autoImplicit false

namespace TypedOps.Layout

open Text

/-! ### Texts without white space -/

/-- A text with all white space deleted. Two texts with the same `squeezed` form differ in white
space only. -/
def squeezed (t : Text) : Text := t.filter fun c => !isBlank c

/-- White space is deleted part by part, so `squeezed` goes through an append. -/
@[simp] theorem squeezed_append (s t : Text) : squeezed (s ++ t) = squeezed s ++ squeezed t :=
  List.filter_append ..

/-- Nothing is left by `squeezed` of a text of white space. -/
theorem squeezed_blank {t : Text} (h : ∀ c ∈ t, isBlank c = true) : squeezed t = [] := by
  refine List.filter_eq_nil_iff.mpr fun c hc => ?_
  simp [h c hc]

/-- To `strip` a text deletes white space only, so it is the same `squeezed`. -/
theorem squeezed_strip (t : Text) : squeezed (strip t) = squeezed t := by
  obtain ⟨front, behind, ht, hfront, hbehind⟩ := exists_strip_append t
  calc
    squeezed (strip t) = [] ++ (squeezed (strip t) ++ []) := by simp
    _ = squeezed (front ++ (strip t ++ behind)) := by
      rw [squeezed_append, squeezed_append, squeezed_blank hfront, squeezed_blank hbehind]
    _ = squeezed t := by rw [← ht]

/-! ### Items -/

/-- A list in which one of the `argumentPieces` is empty only behind the last comma, if at all. -/
def Filled (list : Text) : Prop := ∀ segment ∈ (argumentPieces {} list).dropLast, strip segment ≠ []

instance (list : Text) : Decidable (Filled list) :=
  inferInstanceAs (Decidable (∀ segment ∈ (argumentPieces {} list).dropLast, strip segment ≠ []))

/-- Segments with a comma behind each are, `squeezed`, the joined segments, with a comma behind the
last of them if that is not blank. -/
theorem squeezed_arguments {segments : List Text} (hne : segments ≠ [])
    (h : ∀ segment ∈ segments.dropLast, strip segment ≠ []) :
    ∃ comma : Text, (comma = [] ∨ comma = [',']) ∧
      squeezed (segments.flatMap fun segment => (pieceArgument segment).flatMap (· ++ [','])) =
        squeezed (join [','] segments) ++ comma := by
  have hone : ∀ segment, strip segment ≠ [] →
      squeezed ((pieceArgument segment).flatMap (· ++ [','])) = squeezed segment ++ [','] := by
    intro segment hsegment
    rw [pieceArgument, if_neg hsegment]
    show squeezed (strip segment ++ [','] ++ []) = _
    rw [List.append_nil, squeezed_append, squeezed_strip]
    rfl
  induction segments with
  | nil => exact absurd rfl hne
  | cons segment segments ih =>
    cases segments with
    -- The last segment may be blank, and only then there is no comma behind it.
    | nil =>
      by_cases hblank : strip segment = []
      · refine ⟨[], .inl rfl, ?_⟩
        show squeezed ((pieceArgument segment).flatMap (· ++ [',']) ++ []) = squeezed segment ++ []
        rw [pieceArgument, if_pos hblank, ← squeezed_strip segment, hblank]
        rfl
      · refine ⟨[','], .inr rfl, ?_⟩
        show squeezed ((pieceArgument segment).flatMap (· ++ [',']) ++ []) = _
        rw [List.append_nil, hone segment hblank]
        rfl
    | cons next rest =>
      obtain ⟨hsegment, hrest⟩ := List.forall_mem_cons.mp h
      obtain ⟨comma, hcomma, hitems⟩ := ih (by simp) hrest
      refine ⟨comma, hcomma, ?_⟩
      rw [List.flatMap_cons, squeezed_append, hone segment hsegment, hitems]
      show squeezed segment ++ [','] ++ _ =
        squeezed (segment ++ [','] ++ join [','] (next :: rest)) ++ comma
      rw [squeezed_append, squeezed_append, List.append_assoc, List.append_assoc, List.append_assoc]
      rfl

/-- The arguments that `splitArguments` finds in a list are those of its segments, one by one. -/
theorem splitArguments_eq_flatMap (list : Text) :
    splitArguments list = (argumentPieces {} list).flatMap pieceArgument := by
  rw [splitArguments]
  induction argumentPieces {} list with
  | nil => rfl
  | cons segment segments ih =>
    rw [List.map_cons, List.flatMap_cons, ← ih, pieceArgument]
    by_cases hblank : strip segment = [] <;> simp [hblank]

/-- Lines put together are `squeezed` line by line. -/
theorem squeezed_flatten (ls : List Text) : squeezed ls.flatten = (ls.map squeezed).flatten := by
  induction ls with
  | nil => rfl
  | cons l ls ih => rw [List.flatten_cons, squeezed_append, ih, List.map_cons, List.flatten_cons]

/-! ### Lines -/

/-- The `lines` of the parts are the parts, white space aside, with one comma more or with none. -/
theorem Unfolding.squeezed_lines (u : Unfolding) (hindent : ∀ c ∈ u.indent, isBlank c = true)
    (hfilled : Filled u.list) :
    ∃ comma : Text, (comma = [] ∨ comma = [',']) ∧
      squeezed u.lines.flatten =
        squeezed (u.head ++ '(' :: u.list) ++ comma ++ squeezed (')' :: u.tail) := by
  obtain ⟨comma, hcomma, hsegments⟩ := squeezed_arguments (argumentPieces_ne_nil {} u.list) hfilled
  rw [join_argumentPieces, ← List.flatMap_assoc, ← splitArguments_eq_flatMap] at hsegments
  -- The indentation of an item is white space and drops out.
  have hitemLine : squeezed ∘ u.itemLine = squeezed ∘ (· ++ [',']) := by
    funext item
    show squeezed ((u.indent ++ "    ") ++ (item ++ [','])) = squeezed (item ++ [','])
    rw [squeezed_append, squeezed_append, squeezed_blank hindent]
    rfl
  have hitems :
      squeezed ((splitArguments u.list).map u.itemLine).flatten = squeezed u.list ++ comma := by
    rw [squeezed_flatten, List.map_map, hitemLine, ← List.map_map, ← squeezed_flatten, ← hsegments,
      List.flatMap]
  refine ⟨comma, hcomma, ?_⟩
  calc squeezed u.lines.flatten
      = squeezed u.opening ++
          (squeezed ((splitArguments u.list).map u.itemLine).flatten ++ squeezed u.closing) := by
        rw [lines, List.flatten_cons, List.flatten_append, List.flatten_singleton,
          squeezed_append, squeezed_append]
    _ = squeezed (u.head ++ ['(']) ++
          ((squeezed u.list ++ comma) ++ squeezed (')' :: u.tail)) := by
        rw [hitems, opening, closing, squeezed_append, squeezed_append u.indent,
          squeezed_blank hindent]
        rfl
    _ = squeezed (u.head ++ '(' :: u.list) ++ comma ++ squeezed (')' :: u.tail) := by
        rw [List.append_cons u.head '(' u.list, squeezed_append (u.head ++ ['('])]
        simp only [List.append_assoc]

/-- In front of its list a line `Unfolds` into the head, white space aside. -/
theorem Unfolds.exists_squeezed_head {line : Text} {u : Unfolding} (h : Unfolds line u) :
    ∃ front, line = front ++ '(' :: (u.list ++ ')' :: u.tail) ∧
      squeezed front = squeezed u.head := by
  -- The two shapes differ in what stands in front of the list: a definition has its keyword and its
  -- name there, an assignment its target and the called thing.
  cases h with
  | @definition indent gap name params result shape hindent hgap =>
    refine ⟨indent ++ ("def" ++ (gap ++ name)), by simp [shape], ?_⟩
    show _ = squeezed ("def" ++ (" " ++ name))
    rw [squeezed_append, squeezed_blank hindent, squeezed_append, squeezed_append gap,
      squeezed_blank hgap.2, squeezed_append "def", squeezed_append " "]
    rfl
  | @assignment indent target gap space callee arguments shape hindent _ hgap hspace =>
    refine ⟨indent ++ (target ++ (gap ++ (['='] ++ (space ++ callee)))), by simp [shape], ?_⟩
    show _ = squeezed (target ++ ([' '] ++ (['='] ++ ([' '] ++ callee))))
    simp only [squeezed_append, squeezed_blank hindent, squeezed_blank hgap,
      squeezed_blank hspace]
    rfl

/-- A line is left by `wrapLine` as it is, or it is wrapped at the brackets of a list. Then nothing
of it is lost, repeated or moved but white space, and all that is new is white space and at most one
comma in front of the closing bracket. -/
theorem squeezed_wrapLine {line : Text} (hone : OneLine line)
    (hfilled : ∀ u, unfolding? line = some u → Filled u.list) :
    wrapLine line = [line] ∨
      ∃ u front comma, unfolding? line = some u ∧
        line = front ++ '(' :: (u.list ++ ')' :: u.tail) ∧
        (comma = [] ∨ comma = [',']) ∧
        squeezed (wrapLine line).flatten =
          squeezed (front ++ '(' :: u.list) ++ comma ++ squeezed (')' :: u.tail) := by
  rw [wrapLine_eq]
  cases hunfolding : unfolding? line with
  | none => exact .inl rfl
  | some u =>
    have hu := unfolds_of_unfolding? hone hunfolding
    obtain ⟨front, hline, hfront⟩ := hu.exists_squeezed_head
    obtain ⟨comma, hcomma, hlines⟩ :=
      u.squeezed_lines hu.blank_indent (hfilled u hunfolding)
    refine .inr ⟨u, front, comma, rfl, hline, hcomma, ?_⟩
    show squeezed u.lines.flatten = _
    rw [hlines, squeezed_append, squeezed_append front, hfront]

/-- A definition that `wrapLine` takes apart, although a bracket closes in it that none has opened,
and a quote opens that none closes. -/
def unbalancedDefinition : Text := "def  f( x), y, \"z,) ->  T:"

/-- From the bracket on no comma ends an item of `unbalancedDefinition`. The line is wrapped all the
same, and nothing of it is lost. -/
theorem squeezed_wrapLine_unbalanced :
    OneLine unbalancedDefinition ∧
      (∀ u, unfolding? unbalancedDefinition = some u → Filled u.list) ∧
      wrapLine unbalancedDefinition ≠ [unbalancedDefinition] ∧
      ∃ u front comma, unfolding? unbalancedDefinition = some u ∧
        unbalancedDefinition = front ++ '(' :: (u.list ++ ')' :: u.tail) ∧
        (comma = [] ∨ comma = [',']) ∧
        squeezed (wrapLine unbalancedDefinition).flatten =
          squeezed (front ++ '(' :: u.list) ++ comma ++ squeezed (')' :: u.tail) := by
  have hone : OneLine unbalancedDefinition := by decide
  have hfilled : ∀ u, unfolding? unbalancedDefinition = some u → Filled u.list := by
    show ∀ u ∈ unfolding? unbalancedDefinition, Filled u.list
    decide
  have hwrapped : wrapLine unbalancedDefinition ≠ [unbalancedDefinition] := by decide
  exact ⟨hone, hfilled, hwrapped, (squeezed_wrapLine hone hfilled).resolve_left hwrapped⟩

end TypedOps.Layout
