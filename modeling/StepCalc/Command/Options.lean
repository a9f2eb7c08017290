import StepCalc.Text.Plain

/-!
# Command-line options

Reads the arguments of the command from left to right. Short flags may be joined,
a value may follow its option directly, after an equals sign or as the next
argument, and after `--` everything is the expression. The first mistake found
ends the reading.

The value of an option is looked at only when the next option or the expression
begins, so an unknown argument after a bad value is reported in its place.
-/

namespace StepCalc

/-- Options without a value. -/
inductive Switch where
  | print
  | tokens
  | verbose
  | version
  | help
  deriving DecidableEq, Repr

/-- Options with a value. -/
inductive Setting where
  | file
  | snapshotLimit
  | logFile
  deriving DecidableEq, Repr

inductive Flag where
  | switch (w : Switch)
  | setting (s : Setting)
  deriving DecidableEq, Repr

namespace Flag

def ofLong? : String → Option Flag
  | "file" => some (.setting .file)
  | "print" => some (.switch .print)
  | "tokens" => some (.switch .tokens)
  | "snapshot-limit" => some (.setting .snapshotLimit)
  | "log-file" => some (.setting .logFile)
  | "verbose" => some (.switch .verbose)
  | "version" => some (.switch .version)
  | "help" => some (.switch .help)
  | _ => none

def ofShort? : Char → Option Flag
  | 'f' => some (.setting .file)
  | 'p' => some (.switch .print)
  | 't' => some (.switch .tokens)
  | 'l' => some (.setting .logFile)
  | 'v' => some (.switch .verbose)
  | 'V' => some (.switch .version)
  | 'h' => some (.switch .help)
  | _ => none

end Flag

/-- How messages name a switch; one that may be repeated is marked. -/
def Switch.usage : Switch → String
  | print => "--print"
  | tokens => "--tokens"
  | verbose => "--verbose..."
  | version => "--version"
  | help => "--help"

def Setting.usage : Setting → String
  | file => "--file <FILE>"
  | snapshotLimit => "--snapshot-limit <SNAPSHOT_LIMIT>"
  | logFile => "--log-file <LOG_FILE>"

/-- Why a text is not a size. -/
inductive SizeError where
  | empty
  | invalidDigit
  | tooLarge
  deriving DecidableEq, Repr

def SizeError.message : SizeError → String
  | empty => "cannot parse integer from empty string"
  | invalidDigit => "invalid digit found in string"
  | tooLarge => "number too large to fit in target type"

/-- The largest size: 64 bits. -/
def maxSize : Nat := UInt64.size - 1

/-- Reads digits after the number `n`; the first character that is no digit or
leads beyond the largest size decides the error. -/
def readDigits (n : Nat) : List Char → Except SizeError Nat
  | [] => .ok n
  | c :: rest =>
    if c.isDigit then
      let n := 10 * n + (c.toNat - '0'.toNat)
      if n ≤ maxSize then readDigits n rest else .error .tooLarge
    else .error .invalidDigit

/-- Reads a size, which may have a plus sign. -/
def readSize (text : String) : Except SizeError Nat :=
  match text.toList with
  | [] => .error .empty
  | ['+'] => .error .invalidDigit
  | '+' :: digits => readDigits 0 digits
  | digits => readDigits 0 digits

inductive UsageError where
  | unexpectedArgument (argument : String)
  | missingValue (s : Setting)
  | repeatedSwitch (w : Switch)
  | repeatedSetting (s : Setting)
  | invalidSize (text : String) (s : Setting) (e : SizeError)
  | unneededValue (text : String) (w : Switch)
  deriving DecidableEq, Repr

/-- What is wrong, with control sequences taken out of what the user wrote. -/
def UsageError.message : UsageError → String
  | unexpectedArgument a => s!"error: unexpected argument '{Text.plain a}' found"
  | missingValue s => s!"error: a value is required for '{s.usage}' but none was supplied"
  | repeatedSwitch w => s!"error: the argument '{w.usage}' cannot be used multiple times"
  | repeatedSetting s => s!"error: the argument '{s.usage}' cannot be used multiple times"
  | invalidSize text s e => s!"error: invalid value '{Text.plain text}' for '{s.usage}': {e.message}"
  | unneededValue text w =>
    s!"error: unexpected value '{Text.plain text}' for '{w.usage}' found; no more were expected"

structure Options where
  expression : Option String := none
  file : Option String := none
  print : Bool := false
  tokens : Bool := false
  snapshotLimit : Option Nat := none
  logFile : Option String := none
  verbosity : Nat := 0
  deriving DecidableEq, Repr

/-- The memory for snapshots unless an option says otherwise: 64 MiB. -/
def Options.defaultLimit : Nat := 64 * 1024 * 1024

def Options.limit (o : Options) : Nat :=
  o.snapshotLimit.getD defaultLimit

/-- Why reading the arguments ends before the last of them. -/
inductive Halt where
  | mistake (e : UsageError)
  | version
  | help
  deriving DecidableEq, Repr

/-- Arguments being read. `pending` is an option with the value that it has so
far; after `literal` comes only the expression. -/
structure Arguments where
  options : Options := {}
  pending : Option (Setting × Option String) := none
  literal : Bool := false
  deriving DecidableEq, Repr

namespace Arguments

/-- Stores the value of an option that has none yet. -/
def assign (a : Arguments) (s : Setting) (text : String) : Except Halt Arguments :=
  let o := a.options
  match s with
  | .file =>
    if o.file.isSome then .error (.mistake (.repeatedSetting s))
    else if text.isEmpty then .error (.mistake (.missingValue s))
    else .ok { a with options := { o with file := some text } }
  | .logFile =>
    if o.logFile.isSome then .error (.mistake (.repeatedSetting s))
    else .ok { a with options := { o with logFile := some text } }
  | .snapshotLimit =>
    if o.snapshotLimit.isSome then .error (.mistake (.repeatedSetting s))
    else
      match readSize text with
      | .ok n => .ok { a with options := { o with snapshotLimit := some n } }
      | .error e => .error (.mistake (.invalidSize text s e))

/-- Stores the pending value, which is complete now. -/
def resolve (a : Arguments) : Except Halt Arguments :=
  match a.pending with
  | none => .ok a
  | some (s, none) => .error (.mistake (.missingValue s))
  | some (s, some text) => { a with pending := none }.assign s text

def turnOn (a : Arguments) (w : Switch) : Except Halt Arguments :=
  let o := a.options
  match w with
  | .print =>
    if o.print then .error (.mistake (.repeatedSwitch w))
    else .ok { a with options := { o with print := true } }
  | .tokens =>
    if o.tokens then .error (.mistake (.repeatedSwitch w))
    else .ok { a with options := { o with tokens := true } }
  | .verbose => .ok { a with options := { o with verbosity := o.verbosity + 1 } }
  | .version => .error .version
  | .help => .error .help

/-- An option with the value that is attached to it, or that is still to come. -/
def set (a : Arguments) (s : Setting) (value : Option String) : Except Halt Arguments := do
  let a ← a.resolve
  match value with
  | some text => a.assign s text
  | none => .ok { a with pending := some (s, none) }

def switch (a : Arguments) (w : Switch) : Except Halt Arguments := do
  let a ← a.resolve
  a.turnOn w

/-- Reads an argument that begins with two hyphens. -/
def long (a : Arguments) (name : String) (value : Option String) : Except Halt Arguments :=
  match Flag.ofLong? name, value with
  | none, _ => .error (.mistake (.unexpectedArgument s!"--{name}"))
  | some (.setting s), value => a.set s value
  | some (.switch w), some text => .error (.mistake (.unneededValue text w))
  | some (.switch w), none => a.switch w

/-- The value that stands directly behind a short option. -/
def attached : List Char → Option String
  | [] => none
  | '=' :: text => some (String.ofList text)
  | text => some (String.ofList text)

/-- Reads joined short flags. -/
def short (a : Arguments) : List Char → Except Halt Arguments
  | [] => .ok a
  | c :: rest =>
    match Flag.ofShort? c with
    | none => .error (.mistake (.unexpectedArgument s!"-{c}"))
    | some (.setting s) => a.set s (attached rest)
    | some (.switch w) =>
      match a.switch w with
      | .ok a => a.short rest
      | .error h => .error h

/-- Takes an argument as the expression, of which there is only one. -/
def positional (a : Arguments) (text : String) : Except Halt Arguments :=
  if a.options.expression.isSome then .error (.mistake (.unexpectedArgument text))
  else do
    let a ← a.resolve
    .ok { a with options := { a.options with expression := some text } }

/-- Takes an argument that is no flag. -/
def value (a : Arguments) (text : String) : Except Halt Arguments :=
  match a.pending with
  | some (s, none) => .ok { a with pending := some (s, some text) }
  | _ => a.positional text

/-- Cuts a long flag at its equals sign. -/
def splitLong (cs : List Char) : String × Option String :=
  let name := String.ofList (cs.takeWhile (· != '='))
  match cs.dropWhile (· != '=') with
  | [] => (name, none)
  | _ :: text => (name, some (String.ofList text))

/-- Reads one argument. -/
def take (a : Arguments) (text : String) : Except Halt Arguments :=
  if a.literal then a.positional text
  else
    match text.toList with
    | ['-', '-'] => .ok { a with literal := true }
    | '-' :: '-' :: cs =>
      let (name, value) := splitLong cs
      a.long name value
    | ['-'] => a.value text
    | '-' :: cs => a.short cs
    | _ => a.value text

end Arguments

/-- The options that the arguments give. -/
def Options.ofArgs (args : List String) : Except Halt Options := do
  let a ← args.foldlM Arguments.take {}
  let a ← a.resolve
  .ok a.options

end StepCalc
