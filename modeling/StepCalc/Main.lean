import StepCalc.Command.Run

/-!
# The executable

Gives the command the files and the streams of the process, and prints what the
command reports. A session needs a terminal in raw mode, which is not available
here; opening one fails after the log has been written.
-/

namespace StepCalc

/-- The number of a system error, which may come negated. -/
def errorNumber (code : UInt32) : UInt32 :=
  min code (0 - code)

/-- The failure that an error of the system amounts to. -/
def Failure.ofError (e : IO.Error) : Failure :=
  match e with
  | .noFileOrDirectory .. => .notFound
  | .inappropriateType _ code _ | .invalidArgument _ code _ =>
    match errorNumber code with
    | 20 => .notDirectory
    | 21 => .isDirectory
    | 36 => .nameTooLong
    | _ => .other (toString e)
  | _ => .other (toString e)

/-- The files and the input of the process. -/
def processHost : Host IO where
  create path := do
    try
      IO.FS.writeFile path ""
      return .ok ()
    catch e => return .error (.ofError e)
  read path := do
    try
      return .ok (← IO.FS.readBinFile path)
    catch e => return .error (.ofError e)
  input := do
    try
      return .ok (← (← IO.getStdin).readBinToEnd)
    catch e => return .error (.ofError e)

/-- Writes the log lines to the file named by the options. -/
def writeLog (args : List String) (lines : List String) : IO Unit :=
  match Options.ofArgs args with
  | .ok { logFile := some path, .. } =>
    IO.FS.writeFile path (String.join (lines.map (· ++ "\n")))
  | _ => return ()

end StepCalc

open StepCalc in
def main (args : List String) : IO UInt32 := do
  let report ← Command.run processHost args
  if let some lines := report.log then writeLog args lines
  match report.outcome with
  | .output text => IO.print text; return 0
  | .failure text => IO.eprint text; return 1
  | .misuse e => IO.eprintln e.message; return 2
  | .session _ warning =>
    if let some text := warning then IO.eprintln text
    IO.eprintln "Error: no terminal"
    return 1
