import EventScript.Path

/-!
# File stores

What the compiler asks of the place where files are: to read a file, to tell whether a path leads
anywhere, and what it takes to replace a file as a whole. A replacement is made beside the file whose
place it is to take, under a name of its own, and is moved there when it is complete; if anything goes
wrong before, it is thrown away.
-/

namespace EventScript

/-- Why a file operation failed. -/
inductive FileError
  | notFound
  | notDirectory
  | isDirectory
  /-- The path names a directory by what it is, not by a name. -/
  | busy
  | tooManyLinks
  | nameTooLong
  | nulInPath
  /-- Another reason, in the words of the system. -/
  | other (message : String)
  deriving DecidableEq, Repr

/-- The words for a failed operation. -/
def FileError.message : FileError → String
  | .notFound => "No such file or directory (os error 2)"
  | .notDirectory => "Not a directory (os error 20)"
  | .isDirectory => "Is a directory (os error 21)"
  | .busy => "Device or resource busy (os error 16)"
  | .tooManyLinks => "Too many levels of symbolic links (os error 40)"
  | .nameTooLong => "File name too long (os error 36)"
  | .nulInPath => "file name contained an unexpected NUL byte"
  | .other message => message

/-- A place where files are, reached by actions in `m`. Files on their way to another's place are known by
values of `T`. -/
class FileStore (m : Type → Type) (T : outParam Type) where
  /-- The content of the file that a path leads to. -/
  read : (path : Bytes) → m (Except FileError Bytes)
  /-- Whether a path leads to anything, links followed. -/
  exists? : (path : Bytes) → m Bool
  /-- The permission bits of what a path leads to, links followed. -/
  mode? : (path : Bytes) → m (Option Nat)
  /-- Makes an empty file under a name that is not in use, in the directory that a path leads to
  (`create_temp`). -/
  makeTemporary : (directory : Bytes) → m (Except FileError T)
  /-- Sets the permission bits of the file. -/
  setMode : (file : T) → (mode : Nat) → m (Except FileError Unit)
  /-- Writes at the end of the file. -/
  append : (file : T) → (content : Bytes) → m (Except FileError Unit)
  /-- Waits until what was written is kept for good. -/
  sync : (file : T) → m (Except FileError Unit)
  /-- Moves the file to a path, in place of the entry there. -/
  moveTo : (file : T) → (path : Bytes) → m (Except FileError Unit)
  /-- Removes the file. -/
  discard : (file : T) → m Unit

namespace FileStore

variable {m : Type → Type} {T : Type} [Monad m] [FileStore m T]

/-- Gives a new file the permission bits of whatever `path` leads to, if it leads to anything. -/
def copyMode (file : T) (path : Bytes) : ExceptT FileError m Unit := do
  match ← (mode? path : m (Option Nat)) with
  | some mode => ExceptT.mk (setMode file mode)
  | none => return ()

/-- Completes a new file and moves it to `path`. -/
def complete (file : T) (path content : Bytes) : ExceptT FileError m Unit := do
  copyMode file path
  ExceptT.mk (append file content)
  ExceptT.mk (sync file)
  ExceptT.mk (moveTo file path)

/-- Puts a file at a path, in place of the entry there (`write_script`). -/
def replace (path content : Bytes) : ExceptT FileError m Unit := do
  let file ← ExceptT.mk (makeTemporary (Path.workDirectory path))
  tryCatch (complete file path content) fun e => do
    (discard file : m Unit)
    throw e

end FileStore

end EventScript
