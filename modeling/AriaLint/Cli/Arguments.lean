import AriaLint.Text.Newline
import AriaLint.Text.Quoted
import AriaLint.Text.Word

/-!
# Arguments

One input, and options in any order around it.  A long option may be cut short as long as it stays
unique, and its argument may follow an equals sign.  Short options may share a word, and the last of
them may have its argument attached.  A double hyphen ends the options; as an attached argument it
stands for none.

Reading has two steps.  Each word is classified for itself (`classify`), which already refuses an
option cut too short.  Then the words are taken from the left (`take`), and every option acts where
it stands: so `--version` answers at once, whatever follows.
-/

namespace AriaLint.Cli

/-- The options. -/
inductive Setting where
  | help
  | output
  | format
  | fix
  | trackDepth
  | verbose
  | version
  deriving DecidableEq, Repr

/-- Whether an option takes an argument. -/
inductive Arity where
  | none
  | one
  | optional
  deriving DecidableEq, Repr

namespace Setting

/-- All options, in the order in which they are offered. -/
def all : List Setting := [help, output, format, fix, trackDepth, verbose, version]

/-- The names of an option. -/
def names : Setting → List Text
  | help => ["-h", "--help"]
  | output => ["-o", "--output"]
  | format => ["-f", "--format"]
  | fix => ["--fix"]
  | trackDepth => ["--track-tablist-depth"]
  | verbose => ["-v", "--verbose"]
  | version => ["--version"]

/-- Whether the option takes an argument. -/
def arity : Setting → Arity
  | output | format => .one
  | fix => .optional
  | help | trackDepth | verbose | version => .none

/-- How errors call an option. -/
def title (s : Setting) : Text := Text.join "/" s.names

/-- All names with their options. -/
def named : List (Text × Setting) := all.flatMap fun s => s.names.map fun n => (n, s)

/-- The option of that name. -/
def ofName? (name : Text) : Option Setting := named.lookup name

end Setting

/-- The forms of a report. -/
inductive Format where
  | json
  | text
  deriving DecidableEq, Repr

/-- What a run is asked to do. -/
structure Arguments where
  input : Text
  output : Option Text
  format : Format
  /-- Where the fixed text goes: nowhere, or to a path; an empty path stands for the default. -/
  fix : Option Text
  trackDepth : Bool
  isVerbose : Bool
  deriving DecidableEq, Repr

/-- Why arguments are refused. -/
inductive UsageError where
  | ambiguous (word : Text) (candidates : List Text)
  | ignoredArgument (setting : Setting) (argument : Text)
  | expectedArgument (setting : Setting)
  | invalidFormat (argument : Text)
  | missingInput
  | unrecognized (words : List Text)
  deriving DecidableEq, Repr

/-- An error about an option. -/
def aboutSetting (s : Setting) (message : Text) : Text :=
  "argument " ++ s.title ++ ": " ++ message

/-- The wording of an error.  Words of the user may bring several lines into it. -/
def UsageError.message : UsageError → Text
  | ambiguous word candidates =>
    "ambiguous option: " ++ word ++ " could match " ++ Text.join ", " candidates
  | ignoredArgument s argument =>
    aboutSetting s ("ignored explicit argument " ++ Text.quoted argument)
  | expectedArgument s => aboutSetting s "expected one argument"
  | invalidFormat argument =>
    aboutSetting .format
      ("invalid choice: " ++ Text.quoted argument ++ " (choose from " ++
        Text.join ", " [Text.quoted "json", Text.quoted "text"] ++ ")")
  | missingInput => "the following arguments are required: input"
  | unrecognized words => "unrecognized arguments: " ++ Text.join " " words

/-- The line that reports an error: of a wording with several lines, the last one. -/
def UsageError.line (e : UsageError) : Text :=
  Text.lastLine ("aria-helper: error: " ++ e.message ++ "\n") ++ "\n"

/-! ## Words -/

/-- A word: a plain one, the end of all options, an option with the argument attached to it, or
something that looks like an option and is none. -/
inductive Word where
  | plain (t : Text)
  | endOfOptions
  | option (setting : Setting) (isLong : Bool) (attached : Option Text)
  | unknown (t : Text)
  deriving DecidableEq, Repr

/-- The text before the first equals sign, and the argument behind it. -/
def splitAtSign (word : Text) : Text × Option Text :=
  match Text.upTo? '=' word with
  | some (name, argument) => (name, some argument)
  | none => (word, none)

/-- A negative number is a plain word.  A line feed may stand at its end. -/
def isNegativeNumber (word : Text) : Bool :=
  match word with
  | '-' :: t =>
    let t := if t.getLast? = some '\n' then t.dropLast else t
    let fraction := t.dropWhile isDigit
    (fraction = [] ∧ t ≠ []) ∨
      (fraction.head? = some '.' ∧ fraction.tail ≠ [] ∧ fraction.tail.all isDigit)
  | _ => false

/-- The options that a word may stand for when it is none of their full names: a long one cut short,
or a short one with its argument attached. -/
def candidates (word : Text) : List (Text × Setting × Option Text) :=
  if word.take 2 = ['-', '-'] then
    let (start, attached) := splitAtSign word
    (Setting.named.filter fun e => start.isPrefixOf e.1).map fun (name, s) => (name, s, attached)
  else
    (Setting.named.filter fun e => e.1 = word.take 2).map fun (name, s) =>
      (name, s, some (word.drop 2))

/-- The name of an option has two hyphens. -/
def isLongName (name : Text) : Bool := name.take 2 = ['-', '-']

/-- Reads a word that is not behind the end of all options. -/
def classify (word : Text) : Except UsageError Word :=
  if word.head? ≠ some '-' then .ok (.plain word)
  else match Setting.ofName? word with
    | some s => .ok (.option s (isLongName word) none)
    | none =>
      if word = ['-'] then .ok (.plain word)
      else
        let (name, attached) := splitAtSign word
        match attached.bind fun _ => Setting.ofName? name with
        | some s => .ok (.option s (isLongName name) attached)
        | none =>
          match candidates word with
          | [(name, s, attached)] => .ok (.option s (isLongName name) attached)
          | [] =>
            .ok (if isNegativeNumber word || word.contains ' ' then .plain word else .unknown word)
          | many => .error (.ambiguous word (many.map Prod.fst))

/-- Reads all words. -/
def classifyAll : List Text → Except UsageError (List Word)
  | [] => .ok []
  | word :: words =>
    if word = ['-', '-'] then .ok (.endOfOptions :: words.map .plain)
    else do
      let first ← classify word
      let rest ← classifyAll words
      return first :: rest

/-! ## Options in one word -/

/-- The options that a word gives: those that are complete, and the one that may still take the next
word. -/
structure Given where
  complete : List (Setting × Option Text)
  last : Option Setting
  deriving DecidableEq, Repr

/-- An attached argument; the end of all options stands for none. -/
def attachedArgument (argument : Text) : Option Text :=
  if argument = ['-', '-'] then none else some argument

/-- An option with an argument attached.  To a short option without argument, further short options
are attached instead. -/
def withAttached (s : Setting) (isLong : Bool) (argument : Text) : Except UsageError Given :=
  if s.arity ≠ .none then .ok ⟨[(s, attachedArgument argument)], none⟩
  else match argument with
    | [] => .error (.ignoredArgument s argument)
    | c :: t =>
      match if isLong then none else Setting.ofName? ['-', c] with
      | none => .error (.ignoredArgument s argument)
      | some next =>
        if t = [] then .ok ⟨[(s, none)], some next⟩
        else
          (withAttached next false t).map fun g => { g with complete := (s, none) :: g.complete }

/-- The options that an option word gives. -/
def given (s : Setting) (isLong : Bool) : Option Text → Except UsageError Given
  | some argument => withAttached s isLong argument
  | none => .ok ⟨[], some s⟩

/-! ## Taking the words -/

/-- What a run is asked for: a check, or an answer about the program itself. -/
inductive Request where
  | check (a : Arguments)
  | help
  | version
  deriving DecidableEq, Repr

/-- How far the words have been taken: the input, the options so far, and words that fit nowhere. -/
structure Progress where
  input : Option Text
  arguments : Arguments
  extras : List Text
  deriving DecidableEq, Repr

namespace Progress

/-- Nothing taken yet. -/
def start : Progress := ⟨none, ⟨[], none, .text, none, false, false⟩, []⟩

/-- A plain word is the input, or fits nowhere once there is one. -/
def addPlain (p : Progress) (t : Text) : Progress :=
  match p.input with
  | none => { p with input := some t }
  | some _ => { p with extras := p.extras ++ [t] }

/-- Adds a word that fits nowhere. -/
def addExtra (p : Progress) (t : Text) : Progress := { p with extras := p.extras ++ [t] }

/-- The end of the words: an input has to be there, and nothing may be left over. -/
def finish (p : Progress) : Except UsageError Request :=
  match p.input with
  | none => .error .missingInput
  | some input =>
    if p.extras = [] then .ok (.check { p.arguments with input := input })
    else .error (.unrecognized p.extras)

end Progress

/-- What an option did: the arguments with it, or an answer at once. -/
inductive Effect where
  | settled (a : Arguments)
  | answer (r : Request)
  deriving DecidableEq, Repr

/-- The effect of an option with its argument.  Without one, the report goes to no file and is text,
and the fixed text goes to the default path. -/
def Setting.act (a : Arguments) (s : Setting) (argument : Option Text) :
    Except UsageError Effect :=
  match s with
  | .help => .ok (.answer .help)
  | .version => .ok (.answer .version)
  | .trackDepth => .ok (.settled { a with trackDepth := true })
  | .verbose => .ok (.settled { a with isVerbose := true })
  | .output => .ok (.settled { a with output := argument })
  | .fix => .ok (.settled { a with fix := some (argument.getD []) })
  | .format =>
    match argument with
    | none => .ok (.settled { a with format := .text })
    | some name =>
      if name = "json" then .ok (.settled { a with format := .json })
      else if name = "text" then .ok (.settled { a with format := .text })
      else .error (.invalidFormat name)

/-- The effect of several options. -/
def actAll (a : Arguments) : List (Setting × Option Text) → Except UsageError Effect
  | [] => .ok (.settled a)
  | (s, argument) :: more =>
    match s.act a argument with
    | .ok (.settled a) => actAll a more
    | done => done

/-- The last option of a word, which may take the next word: with its argument, and whether the next
word was taken. -/
def completeLast (s : Setting) (next : Option Text) :
    Except UsageError ((Setting × Option Text) × Bool) :=
  match s.arity, next with
  | .none, _ => .ok ((s, none), false)
  | .one, some t => .ok ((s, some t), true)
  | .one, none => .error (.expectedArgument s)
  | .optional, some t => .ok ((s, some t), true)
  | .optional, none => .ok ((s, none), false)

/-- The options of a word, and whether the next word was taken as an argument. -/
def allGiven (g : Given) (next : Option Text) :
    Except UsageError (List (Setting × Option Text) × Bool) :=
  match g.last with
  | none => .ok (g.complete, false)
  | some s => (completeLast s next).map fun (last, taken) => (g.complete ++ [last], taken)

/-- An option word with the plain word behind it, if there is one: the progress, or an answer at
once, and whether the next word was taken. -/
def takeOption (p : Progress) (s : Setting) (isLong : Bool) (attached : Option Text)
    (next : Option Text) : Except UsageError ((Progress × Bool) ⊕ Request) := do
  let g ← given s isLong attached
  let (actions, taken) ← allGiven g next
  match ← actAll p.arguments actions with
  | .answer r => return .inr r
  | .settled a => return .inl ({ p with arguments := a }, taken)

/-- Takes the words from the left.  The end of all options is swallowed next to the input, and fits
nowhere else. -/
def take (p : Progress) : List Word → Except UsageError Request
  | [] => p.finish
  | .plain t :: .endOfOptions :: words =>
    if p.input.isNone then take (p.addPlain t) words
    else take ((p.addExtra t).addExtra ['-', '-']) words
  | .plain t :: words => take (p.addPlain t) words
  | .endOfOptions :: .plain t :: words =>
    if p.input.isNone then take (p.addPlain t) words
    else take ((p.addExtra ['-', '-']).addExtra t) words
  | .endOfOptions :: words => take (p.addExtra ['-', '-']) words
  | .unknown t :: words => take (p.addExtra t) words
  | .option s isLong attached :: .plain t :: words =>
    match takeOption p s isLong attached (some t) with
    | .error e => .error e
    | .ok (.inr r) => .ok r
    | .ok (.inl (p, true)) => take p words
    | .ok (.inl (p, false)) => take p (.plain t :: words)
  | .option s isLong attached :: words =>
    match takeOption p s isLong attached none with
    | .error e => .error e
    | .ok (.inr r) => .ok r
    | .ok (.inl (p, _)) => take p words

/-- Reads the arguments. -/
def parse (words : List Text) : Except UsageError Request :=
  (classifyAll words).bind (take .start)

end AriaLint.Cli
