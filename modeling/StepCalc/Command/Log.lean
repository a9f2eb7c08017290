import StepCalc.History.Replay

/-!
# The log

Every step of the command leaves a record with a level. A log keeps the records
that matter at least as much as its threshold asks for.
-/

namespace StepCalc

inductive Level where
  | trace
  | debug
  | info
  | warn
  | error
  deriving DecidableEq, Repr

namespace Level

def name : Level → String
  | trace => "TRACE"
  | debug => "DEBUG"
  | info => "INFO"
  | warn => "WARN"
  | error => "ERROR"

def rank : Level → Nat
  | trace => 0
  | debug => 1
  | info => 2
  | warn => 3
  | error => 4

/-- The least level that is kept; each demand for more detail lowers it. -/
def threshold : Nat → Level
  | 0 => info
  | 1 => debug
  | _ => trace

end Level

structure Record where
  level : Level
  message : String
  fields : List (String × String)
  deriving DecidableEq, Repr

namespace Record

def line (r : Record) : String :=
  r.fields.foldl (fun text (name, value) => s!"{text} {name}={value}") s!"{r.level.name} {r.message}"

def read (source : String) : Record :=
  ⟨.info, "read expression", [("len", toString source.utf8ByteSize)]⟩

def lexed (t : Token) : Record :=
  ⟨.trace, "lexed token", [("kind", t.kind.name), ("offset", toString t.location.offset)]⟩

def parsed (e : Expr) : Record :=
  ⟨.debug, "parsed expression", [("nodes", toString e.size)]⟩

def reduced (r : Reduction) : Record :=
  ⟨.debug, "reduced", [("node", toString r.node), ("step", r.describe)]⟩

/-- A finished evaluation, as the replay and then the command report it. -/
def finished (level : Level) (message : String) (v : Value) (steps : Nat) : Record :=
  ⟨level, message, [("value", v.text), ("steps", toString steps)]⟩

/-- Something that went wrong. -/
def failed (level : Level) (message error : String) : Record :=
  ⟨level, message, [("error", error)]⟩

end Record

/-- The records of scanning and parsing a text. Scanning goes no further than the
token that parsing stops at, and the end of the text leaves no record. -/
def parseRecords (source : String) : List Record :=
  let start := Parser.ofString source
  let (result, stop) := start.parse
  let scanned := start.rest.take (start.rest.length - stop.rest.length + 1)
  scanned.map .lexed ++ match result with
    | .ok e => [.parsed e]
    | .error _ => []

/-- The records of running a replay. A reduction leaves its record also when the
snapshot after it does not fit any more. -/
def runRecords (r : Replay) : List Record :=
  let (outcome, after) := r.run
  let reductions := (r.expr.record.1.take (after.total + 1)).filterMap (·.reduction)
  reductions.map .reduced ++ match outcome with
    | .ok v =>
      [.finished .debug "evaluation finished" v after.total,
        .finished .info "evaluation completed" v after.total]
    | .error e =>
      [.failed .warn "evaluation failed" e.message,
        .failed .info "entering UI with partial reduction history" e.message]

end StepCalc
