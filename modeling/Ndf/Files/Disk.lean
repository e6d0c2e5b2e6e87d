/-
# Files

What a program needs of a file system: reading a whole file and replacing one.  A `Disk` offers the
two in some monad, so that what is built on it runs on real files and on a `FileStore` alike.
-/

namespace Ndf

/-- What the system answers when it refuses. -/
inductive SystemError where
  /-- There is nothing of that name. -/
  | notFound
  /-- Something on the way is no directory. -/
  | notDirectory
  /-- The name is that of a directory. -/
  | isDirectory
  /-- The name, or a step of it, is longer than names can be. -/
  | nameTooLong
  /-- The name holds a NUL, which no name can. -/
  | nulInName
  /-- Anything else, in the system's words. -/
  | other (message : String)
deriving DecidableEq, Repr

/-- The wording of an answer. -/
def SystemError.message : SystemError → String
  | .notFound => "No such file or directory (os error 2)"
  | .notDirectory => "Not a directory (os error 20)"
  | .isDirectory => "Is a directory (os error 21)"
  | .nameTooLong => "File name too long (os error 36)"
  | .nulInName => "file name contained an unexpected NUL byte"
  | .other message => message

/-- Why a file was not read: it could not be opened, or it could but has no content. -/
inductive ReadError where
  | opening (error : SystemError)
  | reading (error : SystemError)
deriving DecidableEq, Repr

/-- Why a file was not written. -/
inductive WriteError where
  | creating (error : SystemError)
  | writing (error : SystemError)
deriving DecidableEq, Repr

/-- Access to files. -/
structure Disk (m : Type → Type) where
  /-- The content of a file. -/
  read : String → m (Except ReadError ByteArray)
  /-- Makes a file with the given content, or replaces one. -/
  write : String → ByteArray → m (Except WriteError Unit)

end Ndf
