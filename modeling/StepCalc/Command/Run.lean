import StepCalc.Command.Host
import StepCalc.Command.Log
import StepCalc.Command.Options
import StepCalc.Session.Basic

/-!
# The command

Reads an expression and lists its tokens, prints its value, or opens a session
on its evaluation. `run` asks the host for whatever it needs and says what is to
be printed; how a session is shown is up to the caller.
-/

namespace StepCalc

/-- What the command comes to. -/
inductive Outcome where
  | output (text : String)
  | failure (text : String)
  | misuse (e : UsageError)
  /-- A session is to be opened, after a warning if there is one. -/
  | session (s : Session) (warning : Option String)

structure Report where
  outcome : Outcome
  /-- The lines written to the log file, if one was created. -/
  log : Option (List String)

namespace Command

def versionText : String := "calctty 0.1.0\n"

def helpText : String :=
  "Usage: calctty [OPTIONS] [EXPRESSION]\n\n" ++
  "Arguments:\n" ++
  "  [EXPRESSION]  The expression to evaluate; read from --file or stdin when omitted\n\n" ++
  "Options:\n" ++
  "  -f, --file <FILE>                      Read the expression from this file\n" ++
  "  -p, --print                            Print the result and exit\n" ++
  "  -t, --tokens                           Print the token stream and exit\n" ++
  "      --snapshot-limit <SNAPSHOT_LIMIT>  Memory budget for the reduction history, in bytes\n" ++
  "  -l, --log-file <LOG_FILE>              The file to write logs to\n" ++
  "  -v, --verbose...                       Show more in logs\n" ++
  "  -h, --help                             Print help\n" ++
  "  -V, --version                          Print version\n"

/-- The report of a failure with what caused it. -/
def causedBy (context : String) (f : Failure) : Outcome :=
  .failure s!"Error: {context}\n\nCaused by:\n    {f.message}\n"

/-- An outcome with all records that led to it. -/
abbrev Logged := Outcome × List Record

/-- Lists the tokens, one on each line. -/
def listTokens (source : String) : Logged :=
  let tokens := tokenize source
  let line (t : Token) : String :=
    s!"{t.kind.name}@{t.location.line}:{t.location.column} {t.lexeme.text}\n"
  (.output (String.join (tokens.map line)), (tokens.filter (·.kind != .endOfInput)).map .lexed)

def printValue (source : String) : Logged :=
  match evaluate source with
  | .ok v => (.output s!"{v.text}\n", parseRecords source)
  | .error e =>
    (.failure s!"Error: {e.message}\n",
      parseRecords source ++ [.failed .error "evaluation failed" e.message])

/-- Evaluates step by step and opens a session at the start of the history. -/
def openSession (source : String) (limit : Nat) : Logged :=
  match parse source with
  | .error e =>
    (.failure s!"Error: {e.message}\n",
      parseRecords source ++ [.failed .error "parse failed" e.message])
  | .ok e =>
    let start := Replay.ofExpr e limit
    let records := parseRecords source ++ runRecords start
    let r := start.run.2
    match r.rewind with
    | .ok r => (.session (.ofReplay r source) none, records)
    | .error e =>
      (.session (.ofReplay r source) (some s!"Warning: Failed to rewind to start: {e.message}"), records)

/-- The work on a source text. -/
def perform (o : Options) (source : String) : Logged :=
  let (outcome, records) :=
    if o.tokens then listTokens source
    else if o.print then printValue source
    else openSession source o.limit
  (outcome, .read source :: records)

/-- Drops what is below the threshold of the options and writes out the rest. -/
def logLines (o : Options) (records : List Record) : List String :=
  (records.filter fun r => decide ((Level.threshold o.verbosity).rank ≤ r.level.rank)).map (·.line)

variable {m : Type → Type} [Monad m]

/-- The source text: the expression among the arguments, else the file, else the
standard input. A failure comes with what was being read. -/
def readSource (host : Host m) (o : Options) : m (Except (String × Failure) String) := do
  match o.expression, o.file with
  | some text, _ => return .ok text
  | none, some path =>
    let bytes ← host.read path
    return (bytes.bind decodeText).mapError (s!"reading expression from {path}", ·)
  | none, none =>
    let bytes ← host.input
    return (bytes.bind decodeText).mapError ("reading expression from stdin", ·)

/-- Creates the log file, if one is asked for. -/
def openLog (host : Host m) (o : Options) : m (Except Failure Unit) :=
  match o.logFile with
  | some path => host.create path
  | none => return .ok ()

/-- Carries out the options. -/
def execute (host : Host m) (o : Options) : m Report := do
  match ← openLog host o with
  | .error f => return ⟨causedBy "unable to create log file" f, none⟩
  | .ok _ =>
    let (outcome, records) := match ← readSource host o with
      | .error (context, f) => (causedBy context f, [])
      | .ok source => perform o source
    return ⟨outcome, o.logFile.map fun _ => logLines o records⟩

def run (host : Host m) (args : List String) : m Report :=
  match Options.ofArgs args with
  | .error (.mistake e) => return ⟨.misuse e, none⟩
  | .error .version => return ⟨.output versionText, none⟩
  | .error .help => return ⟨.output helpText, none⟩
  | .ok o => execute host o

end Command

end StepCalc
