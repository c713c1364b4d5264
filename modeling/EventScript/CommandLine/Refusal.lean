import EventScript.CommandLine.Arguments
import EventScript.Text.Visible
import EventScript.Text.WhiteSpace

/-!
# Refusals

Why a command line is refused, and what is advised. A refusal is a message, which quotes what was given
with its line breaks, and mostly a usage line after it. Only the first line is reported. The advice names
the command of the first usage line, so a quoted text that holds such a line decides the advice.
-/

namespace EventScript.CommandLine

/-- Why a command line is refused. -/
inductive Refusal
  /-- A command lacks an argument that it requires. -/
  | missingArgument (level : Level)
  /-- A level has no such argument. -/
  | unknownArgument (shown : String) (level : Level)
  /-- A word names no command. -/
  | unknownCommand (word : Bytes) (level : Level)
  /-- An argument has no such value. -/
  | badValue (value : Bytes) (argument : Argument)
  /-- An argument has no value, or an empty one. -/
  | missingValue (argument : Argument)
  /-- An argument is given twice at one level. -/
  | repeated (argument : Argument) (level : Level)
  /-- A flag is given a value. -/
  | surplusValue (value : Bytes) (argument : Argument) (level : Level)
  /-- There are options, but no command. -/
  | missingCommand
  deriving DecidableEq, Repr

namespace Refusal

/-- Text that was given, between quotes. -/
def quoted (text : String) : String :=
  "'" ++ String.ofList (Text.visible text.toList) ++ "'"

/-- Why a command line is refused, in full. -/
def message : Refusal → String
  | .missingArgument _ => "the following required arguments were not provided:"
  | .unknownArgument shown _ => "unexpected argument " ++ quoted shown ++ " found"
  | .unknownCommand word _ => "unrecognized subcommand " ++ quoted (Utf8.lossy word)
  | .badValue value argument =>
    "invalid value " ++ quoted (Utf8.lossy value) ++ " for '" ++ argument.usage ++ "'"
  | .missingValue argument =>
    "a value is required for '" ++ argument.usage ++ "' but none was supplied"
  | .repeated argument _ =>
    "the argument '" ++ argument.usage ++ "' cannot be used multiple times"
  | .surplusValue value argument _ =>
    "unexpected value " ++ quoted (Utf8.lossy value) ++ " for '" ++ argument.usage ++
      "' found; no more were expected"
  | .missingCommand => "'mkscript' requires a subcommand but one was not provided"

/-- Why a command line is refused, on one line (`clap_error_summary`): what is shown of an argument can
break the line. -/
def summary (r : Refusal) : String :=
  String.ofList (Text.trim (r.message.toList.takeWhile (· != '\n')))

/-! ## Advice -/

/-- The level whose usage is shown with a refusal, if one is. -/
def level? : Refusal → Option Level
  | .missingArgument l | .unknownArgument _ l | .unknownCommand _ l | .repeated _ l
  | .surplusValue _ _ l => some l
  | .missingCommand => some .top
  | .badValue _ _ | .missingValue _ => none

/-- What a usage line starts with. -/
def usageMark : List Char :=
  "Usage: ".toList

/-- The lines of a refusal, its usage line last. -/
def lines (r : Refusal) : List (List Char) :=
  r.message.toList.splitOn '\n' ++ r.level?.toList.map fun l => usageMark ++ l.usage.toList

/-- The usage that a line tells, if it is a usage line. -/
def usageOfLine? (line : List Char) : Option (List Char) :=
  let trimmed := Text.trim line
  if usageMark.isPrefixOf trimmed then some (trimmed.drop usageMark.length) else none

/-- The name of the program. -/
def program : List Char :=
  "mkscript".toList

/-- Whether a word of a usage stands for an argument. -/
def isArgument (word : List Char) : Bool :=
  word.head?.any fun c => c == '-' || c == '<' || c == '['

/-- The commands that a usage names: the words after the program up to the first argument. -/
def commandsOf (usage : List Char) : List (List Char) :=
  (((Text.words usage).dropWhile (· != program)).drop 1).takeWhile fun word => !isArgument word

/-- Advice on a refusal (`clap_error_hint`). -/
def hint (r : Refusal) : String :=
  let commands := (r.lines.findSome? usageOfLine?).elim [] commandsOf
  "Try `" ++ String.ofList ([' '].intercalate (program :: commands)) ++ " --help`."

/-- The fault that a refusal is. -/
def fault (r : Refusal) : Fault :=
  { kind := .usage, message := some r.summary, hint := some r.hint }

end Refusal

end EventScript.CommandLine
