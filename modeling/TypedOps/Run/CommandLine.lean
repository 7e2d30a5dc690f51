import TypedOps.Run.Generator

/-!
# `TypedOps.Run.CommandLine`: the command line

Words of a command line are options, values or the mark behind which everything is
a value. Long options may be shortened as long as they stay unique and may carry
their value behind an equals sign; the last of several values of an option wins,
and two hyphens behind the equals sign take the value away. Options of one letter
may share a word. The override directories are the first run of values that no
option takes; a second run is too much.

Shortened options that are not unique are noticed before anything else; then words
are taken from the left, and the first fault ends the reading. Words that nothing
takes are reported at the end.
-/

set_option autoImplicit false

namespace TypedOps.CommandLine

/-- The options of the program, whatever they are spelled like. -/
inductive Flag where
  | help
  | catalog
  | output
  | binding
  | verbose
deriving DecidableEq, Repr

namespace Flag

/-- The spellings of the options, in the order in which they are shown. -/
def spellings : List (Text × Flag) :=
  [("-h", .help), ("--help", .help), ("--catalog", .catalog), ("--output", .output),
    ("--binding", .binding), ("-v", .verbose), ("--verbose", .verbose)]

/-- Whether an option takes a value. -/
def takesValue : Flag → Bool
  | .catalog | .output | .binding => true
  | .help | .verbose => false

/-- An option as messages name it. -/
def shown (f : Flag) : Text :=
  Text.join "/" ((spellings.filter fun (_, g) => g == f).map (·.1))

end Flag

/-- Why a command line is refused, with the words that are to blame. -/
inductive UsageFault where
  | ambiguous (word : Text) (candidates : List Text)
  | valueIgnored (flag : Flag) (value : Text)
  | valueMissing (flag : Flag)
  | unknownBinding (name : Text)
  | unrecognized (words : List Text)
deriving DecidableEq, Repr

/-- The message of a refusal. -/
def UsageFault.message : UsageFault → Text
  | .ambiguous word candidates =>
    "ambiguous option: " ++ word ++ " could match " ++ Text.join ", " candidates
  | .valueIgnored flag value =>
    "argument " ++ flag.shown ++ ": ignored explicit argument " ++ Text.quoted value
  | .valueMissing flag => "argument " ++ flag.shown ++ ": expected one argument"
  | .unknownBinding name =>
    "argument " ++ Flag.binding.shown ++ ": invalid choice: " ++ Text.quoted name ++
      " (choose from " ++
      Text.join ", " (Binding.registered.map fun (n, _) => Text.quoted n) ++ ")"
  | .unrecognized words => "unrecognized arguments: " ++ Text.join " " words

/-- A word of a command line, by what it stands for. -/
inductive Word where
  | value (t : Text)
  | mark
  /-- An option and its spelling, with `attached` as what stands in the word behind it. -/
  | option (flag : Flag) (spelling : Text) (attached : Option Text)
  | unknownOption (t : Text)
deriving DecidableEq, Repr

/-- Whether a text is a negative number, which is a value and no option. -/
def isNegativeNumber (t : Text) : Bool :=
  let isDigit (c : Char) := (Text.decimalValue? c).isSome
  match t with
  | '-' :: rest =>
    let body := if rest.getLast? == some '\n' then rest.dropLast else rest
    match Text.cut '.' body with
    | (whole, none) => !whole.isEmpty && whole.all isDigit
    | (whole, some part) => whole.all isDigit && !part.isEmpty && part.all isDigit
  | _ => false

/-- The options that a word with two hyphens can be short for. -/
def longCandidates (word : Text) : List (Flag × Text × Option Text) :=
  let (start, value) := Text.cut '=' word
  (Flag.spellings.filter fun (s, _) => Text.startsWith s start).map fun (s, f) => (f, s, value)

/-- The options that a word with one hyphen can stand for. -/
def shortCandidates (word : Text) : List (Flag × Text × Option Text) :=
  Flag.spellings.filterMap fun (s, f) =>
    if s = word.take 2 then some (f, s, some (word.drop 2))
    else if Text.startsWith s word then some (f, s, none)
    else none

/-- The options that a word can stand for, when it is none itself. -/
def candidates (word : Text) : List (Flag × Text × Option Text) :=
  match word with
  | '-' :: '-' :: _ => longCandidates word
  | _ => shortCandidates word

/-- What an option word that is spelled out stands for. -/
def spelledOut? (word : Text) : Option Word :=
  match Flag.spellings.lookup word with
  | some flag => some (.option flag word none)
  | none =>
    match Text.cut '=' word with
    | (s, some value) => (Flag.spellings.lookup s).map fun f => .option f s (some value)
    | (_, none) => none

/-- What a word in front of the mark is, or why it is refused. -/
def classify (word : Text) : Except UsageFault Word :=
  match word with
  | '-' :: _ :: _ =>
    match spelledOut? word with
    | some w => .ok w
    | none =>
      match candidates word with
      | [(flag, spelling, attached)] => .ok (.option flag spelling attached)
      | [] =>
        if isNegativeNumber word || word.contains ' ' then .ok (.value word)
        else .ok (.unknownOption word)
      | several => .error (.ambiguous word (several.map fun (_, s, _) => s))
  | _ => .ok (.value word)

/-- What the words are. Behind the mark all of them are values. -/
def classifyAll : List Text → Except UsageFault (List Word)
  | [] => .ok []
  | word :: rest =>
    if word = "--" then .ok (.mark :: rest.map .value)
    else do
      let w ← classify word
      return w :: (← classifyAll rest)

/-- What a command line asks for. `directories` is absent until a run of values has
been taken for them; another setting is absent once its value has been taken
away. -/
structure Options where
  directories : Option (List Text) := none
  catalog : Option Text := some "ops.pbtxt"
  output : Option Text := some "tfbinding/generated_ops.py"
  binding : Option Text := some "graph"
  verbose : Bool := false
  help : Bool := false
  unrecognized : List Text := []
deriving DecidableEq, Repr

namespace Options

/-- Set an option that takes a value. Two hyphens are no value. -/
def setValue (o : Options) (flag : Flag) (value : Text) : Except UsageFault Options :=
  let value? := if value = "--" then none else some value
  match flag with
  | .catalog => .ok { o with catalog := value? }
  | .output => .ok { o with output := value? }
  | .binding =>
    match value? with
    | some name =>
      if (Binding.ofName? name).isSome then .ok { o with binding := some name }
      else .error (.unknownBinding name)
    | none => .ok { o with binding := none }
  | .help | .verbose => .ok o

/-- Set an option without a value. -/
def setPlain (o : Options) (flag : Flag) : Options :=
  match flag with
  | .verbose => { o with verbose := true }
  | .help => { o with help := true }
  | _ => o

/-- Take a run of values, the mark among them as two hyphens. The first run gives
the directories, without the first mark in it; any other is too much. -/
def takeRun (o : Options) (run : List Text) : Options :=
  match o.directories with
  | none => { o with directories := some (run.erase "--".toList) }
  | some _ => { o with unrecognized := o.unrecognized ++ run }

/-- Take an option of one letter and those whose letters stand behind it in its
word. -/
def takeLetters (o : Options) (flag : Flag) : (letters : Text) → Except UsageFault Options
  | [] => .error (.valueIgnored flag [])
  | c :: rest =>
    match Flag.spellings.lookup ['-', c], rest with
    | none, _ => .error (.valueIgnored flag (c :: rest))
    | some next, [] => .ok ((o.setPlain flag).setPlain next)
    | some next, _ :: _ => takeLetters (o.setPlain flag) next rest

/-- Take an option without a value; its word may go on with others of one
letter. -/
def takePlain (o : Options) (flag : Flag) (spelling : Text) :
    (attached : Option Text) → Except UsageFault Options
  | none => .ok (o.setPlain flag)
  | some more =>
    if Text.startsWith spelling "--" then .error (.valueIgnored flag more)
    else o.takeLetters flag more

end Options

/-- Take words from the left; `run` are the values since the last option, the last
one first. -/
def takeWords (o : Options) (run : List Text) : List Word → Except UsageFault Options
  | [] => .ok (if run.isEmpty && o.directories.isSome then o else o.takeRun run.reverse)
  | w :: rest =>
    let before := if run.isEmpty then o else o.takeRun run.reverse
    match w with
    | .value t => takeWords o (t :: run) rest
    | .mark => takeWords o ("--".toList :: run) rest
    | .unknownOption t =>
      takeWords { before with unrecognized := before.unrecognized ++ [t] } [] rest
    | .option flag spelling attached =>
      if !flag.takesValue then
        match before.takePlain flag spelling attached with
        | .error fault => .error fault
        | .ok o => if o.help then .ok o else takeWords o [] rest
      else
        match attached with
        | some v =>
          match before.setValue flag v with
          | .error fault => .error fault
          | .ok o => takeWords o [] rest
        | none =>
          match rest with
          | .value v :: more =>
            match before.setValue flag v with
            | .error fault => .error fault
            | .ok o => takeWords o [] more
          | _ => .error (.valueMissing flag)

/-- What a command line asks for, or why it is refused. Where help is asked for, words that nothing
takes are passed over. -/
def parse (args : List Text) : Except UsageFault Options := do
  let o ← takeWords {} [] (← classifyAll args)
  if o.help || o.unrecognized.isEmpty then return o
  else throw (.unrecognized o.unrecognized)

/-- The override directory if none is given. -/
def defaultDirectory : Text := "api_def/base_api"

/-- The run that the options ask for. -/
def Options.request (o : Options) : Request where
  catalog := o.catalog
  directories :=
    match o.directories with
    | none | some [] => [defaultDirectory]
    | some ds => ds
  output := o.output
  binding := o.binding
  verbose := o.verbose

/-- What the options are, as the lines that help prints. -/
def usage : List Text :=
  ["usage: tfopgen [-h] [--catalog CATALOG] [--output OUTPUT]".toList,
    "               [--binding \x7bgraph,typed\x7d] [-v] [api_def_dir ...]".toList]

/-- How a program ends. -/
inductive Ending where
  /-- All that was asked for is done. -/
  | done
  /-- The command line is refused. -/
  | refused (fault : UsageFault)
  /-- The run ended early, and the user is told why. -/
  | failed (fault : RunFault)
  /-- The run ended early by a fault that nobody looked out for. -/
  | escaped (fault : RunFault)
deriving DecidableEq, Repr

namespace Ending

/-- The status a program exits with, unless a fault escapes. -/
def status? : Ending → Option Nat
  | .done => some 0
  | .failed _ => some 1
  | .refused _ => some 2
  | .escaped _ => none

/-- What the user is told. -/
def errorMessage? : Ending → Option Text
  | .refused fault => some fault.message
  | .failed fault => some fault.message
  | .done | .escaped _ => none

/-- The line that tells the user. -/
def errorLine? (ending : Ending) : Option Text :=
  ending.errorMessage?.map fun message => "tfopgen: error: " ++ message

end Ending

/-- How a run ended. A fault that is reported is a failure, and any other escapes. -/
def endingOf : Except RunFault Report → Ending
  | .ok _ => .done
  | .error fault => if fault.isReported then .failed fault else .escaped fault

/-- The whole program: how it ends and what it did up to there. -/
def runProgram (table : TypeTable) (width : Int) (args : List Text) (tree : FileTree) :
    Ending × Session :=
  match parse args with
  | .error fault => (.refused fault, { tree := tree })
  | .ok options =>
    if options.help then (.done, { tree := tree, printed := usage })
    else
      let (result, session) := (generate table width options.request).run { tree := tree }
      (endingOf result, session)

end TypedOps.CommandLine
