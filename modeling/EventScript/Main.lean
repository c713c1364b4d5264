import EventScript.CommandLine.Run

/-!
# The program

The command line on the files of the system. Everything that is decided is decided by the library; here
files are read and written, the question is put, and the outcome is printed. Completion scripts are not: the
library has no text for them.
-/

namespace EventScript.Program

/-- A path as the system takes it. -/
def systemPath (path : Bytes) : String :=
  Utf8.lossy path

/-- The reason for a failure of the system. -/
def fileError : IO.Error → FileError
  | .noFileOrDirectory .. => .notFound
  | e => .other (toString e)

/-- The outcome of an action on files. -/
def attempt {α : Type} (action : IO α) : IO (Except FileError α) := do
  try return .ok (← action)
  catch e => return .error (fileError e)

/-- The path of a new empty file in a directory. -/
def makeFile (directory : Bytes) : IO String := do
  let tag ← IO.rand 100000 999999
  let made := systemPath directory ++ "/.mkscript-" ++ Decimal.nat tag
  let _ ← IO.FS.Handle.mk made .writeNew
  return made

/-- Writes at the end of the file at a path. -/
def appendFile (file : String) (content : Bytes) : IO Unit := do
  let handle ← IO.FS.Handle.mk file .append
  handle.write ⟨content.toArray⟩
  handle.flush

/-- The files of the system. A temporary file is known by its path. The permission bits of a file cannot be
read here, so a new file has those of new files. -/
instance : FileStore IO String where
  read path := attempt do return (← IO.FS.readBinFile (systemPath path)).toList
  exists? path := do
    try
      let _ ← IO.FS.realPath (systemPath path)
      return true
    catch _ => return false
  mode? _ := return none
  makeTemporary directory := attempt (makeFile directory)
  setMode _ _ := return .ok ()
  append file content := attempt (appendFile file content)
  sync _ := return .ok ()
  moveTo file path := attempt (IO.FS.rename file (systemPath path))
  discard file := do
    try IO.FS.removeFile file
    catch _ => return ()

/-- Puts a question on the terminal, if there is one, and takes the line typed in answer. -/
def ask (question : String) : IO (Option Bytes) := do
  let input ← IO.getStdin
  if !(← input.isTty) then return none
  let diagnostics ← IO.getStderr
  diagnostics.putStr question
  diagnostics.flush
  return some (Terminal.firstLine (← input.read 4096).toList)

end EventScript.Program

open EventScript in
/-- Runs the command line. -/
def main (arguments : List String) : IO UInt32 := do
  let outcome ← CommandLine.run Program.ask (arguments.map Utf8.encode)
  IO.print outcome.output
  IO.eprint outcome.diagnostics
  return UInt32.ofNat outcome.code
