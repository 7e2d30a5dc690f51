import TypedOps.Message.Field
import TypedOps.Proofs.Text.Unescape
import TypedOps.Proofs.Text.Utf8

/-!
# `TypedOps.Proofs.Message.Reads`: fields read one after the other

The reader of a block takes fields until the block is closed, with a step of fuel for
each. `Reads schema m tokens m'` says that some tokens are whole fields: read into `m`
they give `m'`, in front of anything that can follow a field. Fields in a row read in a
row (`Reads.append`), and what they make up can be closed into a block or be a whole text
(`Reads.readBlock`, `Reads.ofText`). The fuel is settled here once: a field is a token at
least, so as many steps as tokens are enough.

* `reads_textTokens`: a scalar text that is still empty takes a string.
* `reads_flatMap_blockTokens`: a repeated message grows by its blocks in order.
-/

set_option autoImplicit false

namespace TypedOps

open Text

/-- What can stand behind a field: nothing, another field or the end of a block. A string behind
`textTokens` could be taken for a part of their value. -/
def Follows (tokens : List Token) : Prop :=
  ∀ t ∈ tokens.head?, (∃ lexeme, t = .word lexeme) ∨ t = .symbol '\x7d'

/-- Tokens that begin with a field, if there are any. Such tokens have `Follows`. -/
def BeginsField (tokens : List Token) : Prop := ∀ t ∈ tokens.head?, ∃ lexeme, t = .word lexeme

/-- No separator comes first in what `Follows` a field, so none is passed over. -/
theorem Follows.passSeparator {tokens : List Token} (h : Follows tokens) :
    Reader.passSeparator tokens = tokens := by
  cases tokens with
  | nil => rfl
  | cons t rest =>
    rcases h t rfl with ⟨lexeme, rfl⟩ | rfl <;> rfl

/-- No string comes first in what `Follows` a field, so a string before it is not continued. -/
theorem Follows.moreStrings {tokens : List Token} (h : Follows tokens) :
    Reader.moreStrings tokens = .ok ([], tokens) := by
  cases tokens with
  | nil => rfl
  | cons t rest =>
    rcases h t rfl with ⟨lexeme, rfl⟩ | rfl <;> rfl

/-- Tokens with `BeginsField`, and what may follow a field behind them, may follow a field. -/
theorem BeginsField.follows_append {tokens rest : List Token} (h : BeginsField tokens)
    (hrest : Follows rest) : Follows (tokens ++ rest) := by
  cases tokens with
  | nil => exact hrest
  | cons t tokens =>
    intro u hu
    exact Or.inl (h u hu)

section
variable {M N : Type}

/-- Tokens that are whole fields: read into `m` they give `m'`. -/
structure Reads (schema : Schema M) (m : M) (tokens : List Token) (m' : M) : Prop where
  begins : BeginsField tokens
  read : ∃ steps ≤ tokens.length, ∀ closer fuel rest, Follows rest →
    Reader.fieldsFrom schema.reader? closer (fuel + steps) m (tokens ++ rest) =
      Reader.fieldsFrom schema.reader? closer fuel m' rest

variable {schema : Schema M} {m m' m'' : M}

/-- No tokens have `Reads` with the message as it is. -/
theorem reads_nil : Reads schema m [] m :=
  ⟨fun _ h => absurd h (by simp), 0, Nat.le_refl 0, fun _ _ _ _ => rfl⟩

/-- Tokens with `Reads`, one behind the other, are read in a row, which is how entries of a document
are put together. -/
theorem Reads.append {tokens tokens' : List Token} (h : Reads schema m tokens m')
    (h' : Reads schema m' tokens' m'') : Reads schema m (tokens ++ tokens') m'' := by
  obtain ⟨steps, hsteps, hread⟩ := h.read
  obtain ⟨steps', hsteps', hread'⟩ := h'.read
  refine ⟨fun t ht => ?_, steps' + steps, ?_, fun closer fuel rest hrest => ?_⟩
  · cases tokens with
    | nil => exact h'.begins t ht
    | cons u tokens => exact h.begins t ht
  · rw [List.length_append]
    omega
  · rw [List.append_assoc, ← Nat.add_assoc, hread _ _ _ (h'.begins.follows_append hrest),
      hread' _ _ _ hrest]

/-- A field has `Reads` if its reader takes its content, whatever follows. -/
theorem reads_field {name : Text} {read : M → Reader M} {content : List Token}
    (hname : schema.reader? name = some read)
    (hread : ∀ rest, Follows rest → read m (content ++ rest) = .ok (m', rest)) :
    Reads schema m (.word name :: content) m' := by
  refine ⟨fun t ht => ?_, 1, by simp, fun closer fuel rest hrest => ?_⟩
  · exact ⟨name, by simpa using ht.symm⟩
  · -- No block is closed by a word.
    have hopen : closer.any (Token.word name).isSymbol = false := by
      cases closer <;> rfl
    show Reader.fieldsFrom schema.reader? closer (fuel + 1) m (.word name :: (content ++ rest)) = _
    rw [Reader.fieldsFrom, hopen]
    simp only [Token.fieldName?, hname, hread rest hrest, Bool.false_eq_true, if_false]
    show Reader.fieldsFrom schema.reader? closer fuel m' (Reader.passSeparator rest) = _
    rw [hrest.passSeparator]

/-- Fields and the end of their block are read by `readBlock`, which stops at the bracket. -/
theorem Reads.readBlock {tokens : List Token} (h : Reads schema m tokens m')
    (rest : List Token) :
    schema.readBlock '\x7d' m (tokens ++ .symbol '\x7d' :: rest) = .ok (m', rest) := by
  obtain ⟨steps, hsteps, hread⟩ := h.read
  have hend : Follows (.symbol '\x7d' :: rest) := fun t ht => Or.inr (by simpa using ht.symm)
  have hfuel : (tokens ++ .symbol '\x7d' :: rest).length + 1 =
      (tokens.length - steps + rest.length + 1) + 1 + steps := by
    simp only [List.length_append, List.length_cons]
    omega
  rw [Schema.readBlock, Reader.fields, hfuel, hread _ _ _ hend]
  rfl

/-- Fields that are a whole text are read by `ofText` into the empty message. -/
theorem Reads.ofText {tokens : List Token} (h : Reads schema schema.empty tokens m')
    {t : Text} (ht : Token.ofText t = tokens) : schema.ofText t = .ok m' := by
  obtain ⟨steps, hsteps, hread⟩ := h.read
  have hend := hread none (tokens.length - steps + 1) [] (fun t h => absurd h (by simp))
  have hfuel : tokens.length - steps + 1 + steps = tokens.length + 1 := by omega
  rw [hfuel, List.append_nil] at hend
  rw [Schema.ofText, ht, Reader.fields, hend]
  rfl

/-! ### Fields -/

/-- A string with the escapes of a text is read by `Reader.text` as the text. -/
theorem Reader.text_string {body t : Text} (hbody : unescape? body = some (Utf8.encode t))
    {rest : List Token} (hrest : Follows rest) :
    Reader.text (.string '"' body true :: rest) = .ok (t, rest) := by
  have hbytes : Reader.bytes (.string '"' body true :: rest) = .ok (Utf8.encode t, rest) := by
    simp [Reader.bytes, Reader.stringContent?, hbody, hrest.moreStrings, Except.map]
  simp only [Reader.text, hbytes, bind, Except.bind, Utf8.decode?_encode]
  rfl

/-- A `Field.scalar` of texts that is still empty reads a string and is set to its text. -/
theorem read_text {number : Nat} {name body t : Text} {get : M → Text} {set : M → Text → M}
    (hfresh : get m = []) (hbody : unescape? body = some (Utf8.encode t)) {rest : List Token}
    (hrest : Follows rest) :
    (Field.scalar number name .text get set).read m
      (.symbol ':' :: .string '"' body true :: rest) = .ok (set m t, rest) := by
  have hexpect : Reader.expect ':' (.symbol ':' :: .string '"' body true :: rest) =
      .ok (.string '"' body true :: rest) := rfl
  have hread : Scalar.text.read (.string '"' body true :: rest) = .ok (t, rest) :=
    Reader.text_string hbody hrest
  have hdefault : Scalar.text.isDefault (get m) = true := by
    rw [hfresh]
    rfl
  simp only [Field.scalar, hexpect, Scalar.readStorable, hread, hdefault, bind, Except.bind,
    if_true]
  rfl

/-- A field of `Field.messages` reads a block and grows by the message in it. -/
theorem read_messages {number : Nat} {name : Text} {inner : Schema N} {get : M → List N}
    {set : M → List N → M} {tokens : List Token} {n : N} (h : Reads inner inner.empty tokens n)
    (rest : List Token) :
    (Field.messages number name inner get set).read m
      (.symbol '\x7b' :: (tokens ++ .symbol '\x7d' :: rest)) =
        .ok (set m (get m ++ [n]), rest) := by
  have hopen : Reader.openBlock (.symbol '\x7b' :: (tokens ++ .symbol '\x7d' :: rest)) =
      .ok ('\x7d', tokens ++ .symbol '\x7d' :: rest) := rfl
  have hblock := h.readBlock rest
  -- Neither a colon nor the bracket of a list comes first.
  have hcolon : Reader.pass ':' (.symbol '\x7b' :: (tokens ++ .symbol '\x7d' :: rest)) =
      .symbol '\x7b' :: (tokens ++ .symbol '\x7d' :: rest) := rfl
  have hlist : Reader.sees '[' (.symbol '\x7b' :: (tokens ++ .symbol '\x7d' :: rest)) = false :=
    rfl
  simp only [Field.messages, Reader.oneOrList, hcolon, hlist, Bool.false_eq_true, if_false, hopen,
    hblock, bind, Except.bind]
  rfl

/-! ### Written fields -/

/-- The `Token`s of a field and the string behind it. -/
def textTokens (key body : Text) : List Token :=
  [.word key, .symbol ':', .string '"' body true]

/-- The `Token`s of a field and the block behind it. -/
def blockTokens (key : Text) (content : List Token) : List Token :=
  [.word key, .symbol '\x7b'] ++ content ++ [.symbol '\x7d']

/-- A part of a structure that `set` stores and `get` takes independently of the rest. Where it is a
field of the structure, all of it holds by computation. -/
structure IsPart {α : Type} (get : M → α) (set : M → α → M) : Prop where
  get_set : ∀ m a, get (set m a) = a := by intros; rfl
  set_set : ∀ m a b, set (set m a) b = set m b := by intros; rfl
  set_get : ∀ m, set m (get m) = m := by intros; rfl

/-- The `textTokens` of a scalar text that is still empty set it to the text. -/
theorem reads_textTokens (schema : Schema M) (m : M) (name : Text) {number : Nat}
    {body t : Text} {get : M → Text} {set : M → Text → M}
    (hfield : schema.reader? name = some (Field.scalar number name .text get set).read)
    (hfresh : get m = []) (hbody : unescape? body = some (Utf8.encode t)) :
    Reads schema m (textTokens name body) (set m t) :=
  reads_field hfield fun _ hrest => read_text hfresh hbody hrest

/-- The `blockTokens` of a repeated message put one message behind those that are there. -/
theorem reads_blockTokens (schema : Schema M) (m : M) (name : Text) {number : Nat}
    {inner : Schema N} {get : M → List N} {set : M → List N → M} {tokens : List Token} {n : N}
    (hfield : schema.reader? name = some (Field.messages number name inner get set).read)
    (h : Reads inner inner.empty tokens n) :
    Reads schema m (blockTokens name tokens) (set m (get m ++ [n])) := by
  refine reads_field hfield fun rest _ => ?_
  have htokens : [Token.symbol '\x7b'] ++ tokens ++ [.symbol '\x7d'] ++ rest =
      .symbol '\x7b' :: (tokens ++ .symbol '\x7d' :: rest) := by
    simp
  show (Field.messages number name inner get set).read m
    ([.symbol '\x7b'] ++ tokens ++ [.symbol '\x7d'] ++ rest) = _
  rw [htokens, read_messages h]

/-- The `blockTokens` of several messages put them behind those that are there, in order. -/
theorem reads_flatMap_blockTokens {α : Type} (schema : Schema M) (m : M) (name : Text)
    {number : Nat} {inner : Schema N} {get : M → List N} {set : M → List N → M}
    (hfield : schema.reader? name = some (Field.messages number name inner get set).read)
    (hpart : IsPart get set) {content : α → List Token} {item : α → N} {xs : List α}
    (h : ∀ x ∈ xs, Reads inner inner.empty (content x) (item x)) :
    Reads schema m (xs.flatMap fun x => blockTokens name (content x))
      (set m (get m ++ xs.map item)) := by
  induction xs generalizing m with
  | nil =>
    rw [List.map_nil, List.append_nil, hpart.set_get]
    exact reads_nil
  | cons x xs ih =>
    have hfirst := reads_blockTokens schema m name hfield (h x List.mem_cons_self)
    have hrest := ih (set m (get m ++ [item x])) fun y hy => h y (List.mem_cons_of_mem x hy)
    rw [hpart.get_set, hpart.set_set, List.append_assoc] at hrest
    exact hfirst.append hrest

end

end TypedOps
