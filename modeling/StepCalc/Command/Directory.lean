import StepCalc.Command.Host

/-!
# Directories

A host held in memory: a few files in and below one directory. A place is a list of
names that leads from this directory to a file or directory; it begins with `..` or
`/` if it leads out of it. Paths are followed name by name, and the first name that
leads nowhere decides the failure.
-/

namespace StepCalc

structure Directory where
  files : List (List String × ByteArray)
  input : ByteArray

namespace Directory

/-- A directory with the given files, on a system with an empty device and one for the
input. -/
def ofFiles (files : List (String × ByteArray)) (input : ByteArray) : Directory where
  files := (["/", "dev", "null"], .empty) :: (["/", "dev", "stdin"], input) ::
    files.map fun (name, bytes) => (name.splitOn "/", bytes)
  input

def find? (d : Directory) (place : List String) : Option ByteArray :=
  (d.files.find? (·.1 = place)).map (·.2)

/-- Directories are the root, this one and those above it, and whatever holds a file. -/
def isDirectory (d : Directory) (place : List String) : Bool :=
  place.all (· = "..") || place = ["/"] || d.files.any fun file =>
    place.isPrefixOf file.1 && decide (place.length < file.1.length)

/-- The directory that a directory is in. The root is in itself. -/
def parent (place : List String) : List String :=
  if place.all (· = "..") then place ++ [".."]
  else if place = ["/"] then place
  else place.dropLast

/-- Names are at most 255 bytes long. -/
def tooLong (name : String) : Bool :=
  decide (255 < name.utf8ByteSize)

/-- Follows one name from one directory to the next. -/
def enter (d : Directory) (place : List String) (name : String) : Except Failure (List String) :=
  if name = "." then .ok place
  else if name = ".." then .ok (parent place)
  else if tooLong name then .error .nameTooLong
  else
    let place := place ++ [name]
    if d.isDirectory place then .ok place
    else if (d.find? place).isSome then .error .notDirectory
    else .error .notFound

/-- The directory that a path leads to, and the last name in it, which need not exist.
Paths are less than 4096 bytes long. -/
def locate (d : Directory) (path : String) : Except Failure (List String × String) := do
  if path.isEmpty then throw .notFound
  if 4096 ≤ path.utf8ByteSize then throw .nameTooLong
  let names := (path.splitOn "/").filter (· != "")
  let place ← names.dropLast.foldlM d.enter (if path.startsWith "/" then ["/"] else [])
  return (place, names.getLastD ".")

/-- The place that a path leads to, unless it leads nowhere. -/
def place? (d : Directory) (path : String) : Option (List String) :=
  (d.locate path).toOption.map fun (place, name) => place ++ [name]

/-- Names that stand for a directory wherever they are. -/
def isDots (name : String) : Bool :=
  name = "." || name = ".."

def read (path : String) (d : Directory) : Except Failure ByteArray := do
  let (place, name) ← d.locate path
  if isDots name then throw .isDirectory
  if tooLong name then throw .nameTooLong
  let file := place ++ [name]
  if d.isDirectory file then throw .isDirectory
  match d.find? file with
  | some bytes => if path.endsWith "/" then .error .notDirectory else .ok bytes
  | none => .error .notFound

/-- The place of a file that can be made or emptied. A slash at the end asks for a
directory, which is not made. -/
def target (d : Directory) (path : String) : Except Failure (List String) := do
  let (place, name) ← d.locate path
  if isDots name || path.endsWith "/" then throw .isDirectory
  if tooLong name then throw .nameTooLong
  let file := place ++ [name]
  if d.isDirectory file then throw .isDirectory
  return file

def create (path : String) (d : Directory) : Except Failure Unit × Directory :=
  match d.target path with
  | .error f => (.error f, d)
  | .ok file => (.ok (), { d with files := (file, .empty) :: d.files.filter (·.1 != file) })

def host : Host (StateM Directory) where
  create path d := d.create path
  read path d := (d.read path, d)
  input d := (.ok d.input, d)

end Directory

end StepCalc
