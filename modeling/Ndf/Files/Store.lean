/-
# File stores

A file system as a value: files with their content, and directories.  Names are resolved step by
step from the root: `.` and empty steps stay, `..` goes up, and every step but the last has to be a
directory.  A name has at most 4095 bytes and a step of it at most 255.
-/

import Ndf.Files.Disk

namespace Ndf

/-- Files and directories under one root. -/
structure FileStore where
  /-- The files by the steps that lead to them. -/
  files : List (List String × ByteArray) := []
  /-- The directories besides the root and those that something is in. -/
  directories : List (List String) := []

namespace FileStore

/-- The content of the file at a place. -/
def content? (s : FileStore) (place : List String) : Option ByteArray := s.files.lookup place

/-- Whether a place is a directory. -/
def isDirectory (s : FileStore) (place : List String) : Bool :=
  place.isEmpty || s.directories.any (place.isPrefixOf ·) ||
    s.files.any fun f => place.isPrefixOf f.1 && place.length < f.1.length

/-- Goes one step from a place, which has to be a directory. -/
def step (s : FileStore) (place : List String) (name : String) :
    Except SystemError (List String) :=
  if s.isDirectory place then
    if name = "" ∨ name = "." then .ok place
    else if name = ".." then .ok place.dropLast
    else if 255 < name.utf8ByteSize then .error .nameTooLong
    else .ok (place ++ [name])
  else if (s.content? place).isSome then .error .notDirectory
  else .error .notFound

/-- The place that the steps of a name lead to, if it can be a name at all. -/
def walk (s : FileStore) (name : String) (steps : List String) :
    Except SystemError (List String) :=
  if name = "" then .error .notFound
  else if name.toList.contains '\x00' then .error .nulInName
  else if 4095 < name.utf8ByteSize then .error .nameTooLong
  else steps.foldlM s.step []

/-- The place that a name leads to. -/
def resolve (s : FileStore) (name : String) : Except SystemError (List String) :=
  s.walk name (name.splitOn "/")

/-- Reads a file. -/
def read (s : FileStore) (name : String) : Except ReadError ByteArray :=
  match s.resolve name with
  | .error e => .error (.opening e)
  | .ok place =>
    match s.content? place with
    | some content => .ok content
    | none =>
      if s.isDirectory place then .error (.reading .isDirectory) else .error (.opening .notFound)

/-- Puts a file at a place. -/
def put (s : FileStore) (place : List String) (content : ByteArray) : FileStore :=
  { s with files := (place, content) :: s.files.filter fun f => f.1 != place }

/-- Where a file of a name would be written.  A name that ends in a slash asks for a directory,
which is refused before the last step is looked at. -/
def target (s : FileStore) (name : String) : Except SystemError (List String) := do
  let steps := name.splitOn "/"
  let bare := (steps.reverse.dropWhile (· == "")).reverse
  let parent ← s.walk name (bare.dropLast ++ ["."])
  if bare.length < steps.length then .error .isDirectory
  else
    let place ← s.step parent (bare.getLastD ".")
    if s.isDirectory place then .error .isDirectory else .ok place

/-- Writes a file. -/
def write (s : FileStore) (name : String) (content : ByteArray) :
    Except WriteError FileStore :=
  match s.target name with
  | .error e => .error (.creating e)
  | .ok place => .ok (s.put place content)

/-- A store as a disk. -/
def disk : Disk (StateM FileStore) where
  read name := do return (← get).read name
  write name content := do
    match (← get).write name content with
    | .ok s =>
      set s
      return .ok ()
    | .error e => return .error e

/-- The steps of a name without those that stay. -/
def steps (name : String) : List String := (name.splitOn "/").filter fun n => n ≠ "" ∧ n ≠ "."

/-- A name from steps. -/
def nameOf (place : List String) : String := String.intercalate "/" place

end FileStore

end Ndf
