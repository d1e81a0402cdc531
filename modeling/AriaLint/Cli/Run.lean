import AriaLint.Cli.Arguments
import AriaLint.Cli.Help
import AriaLint.Files.FixFile
import AriaLint.Report.Analysis

/-!
# A run of the program

A run reads one input, reports on it, and writes the fixed text where it is asked to.  It is a
function of the arguments, of the files that it can see and of its standard input; what it prints,
what it logs and what becomes of the files is its outcome.

The steps of a check follow one upon the other, and each can end the run: finding out where the
fixed text goes, reading the input, analysing it, writing the report, writing the fixed text.  Output
of earlier steps stays.
-/

namespace AriaLint.Cli

/-- How important a line of the log is. -/
inductive Level where
  | debug
  | info
  | error
  deriving DecidableEq, Repr

/-- The name of a level. -/
def Level.label : Level → Text
  | debug => "DEBUG"
  | info => "INFO"
  | error => "ERROR"

/-- A line of the log. -/
structure LogLine where
  level : Level
  message : Text
  deriving DecidableEq, Repr

/-- A line of the log as it is printed. -/
def LogLine.render (l : LogLine) : Text := l.level.label ++ ": " ++ l.message ++ "\n"

/-- How a run ends: with an exit code, or with a failure that nothing in it handles. -/
inductive Ending where
  | exit (code : Nat)
  | failure (f : Failure)
  deriving DecidableEq, Repr

/-- What a run leaves behind. -/
structure Outcome where
  stdout : Text
  stderr : Text
  store : Store
  ending : Ending
  deriving DecidableEq

/-- The outcome so far: what is printed and logged, and the files. -/
structure Output where
  stdout : Text
  log : List LogLine
  store : Store

namespace Output

/-- The outcome when the run ends here.  Debug lines are logged only where they are wanted. -/
def finish (p : Output) (isVerbose : Bool) (ending : Ending) : Outcome where
  stdout := p.stdout
  stderr :=
    ((p.log.filter fun l => isVerbose || l.level != .debug).map LogLine.render).flatten
  store := p.store
  ending := ending

/-- Adds lines to the log. -/
def addLog (p : Output) (lines : List LogLine) : Output :=
  { p with log := p.log ++ lines }

end Output

/-- An early end: what is logged about it, and how the run ends. -/
structure Stop where
  log : List LogLine
  ending : Ending
  deriving DecidableEq, Repr

/-- An end with an error that is logged. -/
def Stop.error (message : Text) : Stop := ⟨[⟨.error, message⟩], .exit 1⟩

/-- An end with a failure. -/
def Stop.failure (f : Failure) : Stop := ⟨[], .failure f⟩

/-! ## The steps -/

/-- The input stands for the standard input. -/
def readsStdin (a : Arguments) : Bool := a.input == ['-']

/-- Where the fixed text goes, if anywhere. -/
def fixTarget (a : Arguments) : Except Stop (Option Path) :=
  match a.fix with
  | none => .ok none
  | some [] =>
    if readsStdin a then .error (.error "--fix needs a PATH when reading from stdin")
    else match outputPath (.ofText a.input) none with
      | .ok path => .ok (some path)
      | .error f => .error (.failure f)
  | some path => .ok (some (.ofText path))

/-- The input: its name, and its text. -/
def readInput (a : Arguments) (store : Store) (stdin : List UInt8) : Except Stop (Text × Text) :=
  if readsStdin a then
    match Store.textOf stdin with
    | .ok snippet => .ok ("<stdin>", snippet)
    | .error e => .error (.failure (.file e))
  else
    let path := (Path.ofText a.input).toText
    match store.has path with
    | .error e => .error (.failure (.file e))
    | .ok false => .error (.error ("Input file not found: " ++ path))
    | .ok true =>
      match store.read path with
      | .ok snippet => .ok (path, snippet)
      | .error e => .error (.error ("Could not read " ++ path ++ ": " ++ e.message))

/-- What the analysis tells about its steps.  Blank input is not scanned, and empty input is not
fixed. -/
def analysisLog (source snippet : Text) (r : Report) : List LogLine :=
  let smells := Text.ofNat r.diagnostics.length
  let fixes := Text.ofNat r.fixed.changes.length
  (if Text.trim snippet = [] then []
    else
      [⟨.debug, "Scanned " ++ Text.ofNat (Tag.all snippet).length ++ " tags, found " ++ smells ++
        " ARIA smells"⟩]) ++
  (if snippet = [] then [] else [⟨.debug, "Applied " ++ fixes ++ " ARIA fixes"⟩]) ++
  [⟨.debug, "Analyzed " ++ source ++ ": " ++ smells ++ " smells, " ++ fixes ++ " fixes"⟩]

/-- Writes the report to its file, or prints it. -/
def writeReport (a : Arguments) (report : Text) (p : Output) :
    Except FileError Output :=
  match a.output.filter (· ≠ []) with
  | none => .ok { p with stdout := p.stdout ++ report ++ "\n" }
  | some name =>
    (p.store.write name report).map fun store =>
      { p with store := store }.addLog [⟨.info, "Report written to: " ++ name⟩]

/-- Writes the fixed text, if it is wanted. -/
def writeFixed (target : Option Path) (r : Report) (p : Output) :
    Except FileError Output :=
  match target with
  | none => .ok p
  | some path =>
    (p.store.write path.toText r.fixed.text).map fun store =>
      { p with store := store }.addLog
        [⟨.info, "Applied " ++ Text.ofNat r.fixed.changes.length ++ " fixes, written to: " ++
          path.toText⟩]

/-- The report in the wanted form. -/
def renderReport (f : Format) (r : Report) : Except Markup.MarkupError Text :=
  match f with
  | .json => r.renderJson
  | .text => r.renderText

/-- The fixes that a run makes. -/
def fixOptions (a : Arguments) : Fix.Options := { Fix.Options.default with trackDepth := a.trackDepth }

/-- The exit code: 2 for smells, 0 without. -/
def exitCode (r : Report) : Nat := if r.hasSmells then 2 else 0

/-- The check of a snippet that has been read. -/
def checkSnippet (a : Arguments) (target : Option Path) (source snippet : Text) (store : Store) :
    Outcome :=
  let p : Output := ⟨[], [⟨.info, "Checking: " ++ source⟩], store⟩
  match Report.analyze snippet source .default (fixOptions a) with
  | .error e => p.finish a.isVerbose (.failure (.markup e))
  | .ok r =>
    let p := p.addLog (analysisLog source snippet r)
    match renderReport a.format r with
    | .error e => p.finish a.isVerbose (.failure (.markup e))
    | .ok report =>
      match writeReport a report p with
      | .error e => p.finish a.isVerbose (.failure (.file e))
      | .ok p =>
        match writeFixed target r p with
        | .error e => p.finish a.isVerbose (.failure (.file e))
        | .ok p => p.finish a.isVerbose (.exit (exitCode r))

/-- A check. -/
def check (a : Arguments) (store : Store) (stdin : List UInt8) : Outcome :=
  let stopped (s : Stop) : Outcome := Output.finish ⟨[], s.log, store⟩ a.isVerbose s.ending
  match fixTarget a with
  | .error s => stopped s
  | .ok target =>
    match readInput a store stdin with
    | .error s => stopped s
    | .ok (source, snippet) => checkSnippet a target source snippet store

/-- The names under which a check may open files. -/
def openedNames (a : Arguments) : List Text :=
  let input := Path.ofText a.input
  [input.toText] ++ (input.fixed?.map Path.toText).toList ++ a.output.toList ++
    a.fix.toList.map fun name => (Path.ofText name).toText

/-! ## The program -/

/-- Runs the program on its arguments. -/
def run (words : List Text) (store : Store) (stdin : List UInt8) : Outcome :=
  match parse words with
  | .error e => ⟨[], e.line, store, .exit 2⟩
  | .ok .version => ⟨versionLine, [], store, .exit 0⟩
  | .ok .help => ⟨helpText, [], store, .exit 0⟩
  | .ok (.check a) => check a store stdin

end AriaLint.Cli
