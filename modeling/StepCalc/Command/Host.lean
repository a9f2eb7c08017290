/-!
# Hosts

What the command needs from its surroundings: files and standard input.
-/

namespace StepCalc

/-- Why a file or the input cannot be used. -/
inductive Failure where
  | notFound
  | notDirectory
  | isDirectory
  | nameTooLong
  | invalidText
  | other (message : String)
  deriving DecidableEq, Repr

def Failure.message : Failure → String
  | notFound => "No such file or directory (os error 2)"
  | notDirectory => "Not a directory (os error 20)"
  | isDirectory => "Is a directory (os error 21)"
  | nameTooLong => "File name too long (os error 36)"
  | invalidText => "stream did not contain valid UTF-8"
  | other message => message

structure Host (m : Type → Type) where
  /-- Makes a file without content, also in place of an older one. -/
  create : String → m (Except Failure Unit)
  read : String → m (Except Failure ByteArray)
  input : m (Except Failure ByteArray)

/-- The text that bytes spell in UTF-8. -/
def decodeText (bytes : ByteArray) : Except Failure String :=
  match String.fromUTF8? bytes with
  | some text => .ok text
  | none => .error .invalidText

end StepCalc
