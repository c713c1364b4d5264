import EventScript.CommandLine.Arguments

/-!
# Help texts

What each level of the command line says of itself: a sentence, how it is used, its commands, arguments
and options in two columns, and notes.
-/

namespace EventScript.CommandLine

/-- The line that tells the version. -/
def versionLine : String := "mkscript 0.9.0"

/-- A help page. -/
structure Page where
  about : String
  usage : String
  /-- Titled tables of two columns. -/
  tables : List (String × List (String × String))
  notes : List String

namespace Page

/-- A text with spaces after it, at least `width` characters long. -/
def padRight (width : Nat) (text : String) : String :=
  text ++ String.ofList (List.replicate (width - text.length) ' ')

/-- The lines of a table of two columns. -/
def tableLines (rows : List (String × String)) : List String :=
  let width := (rows.map fun r => r.1.length).foldl max 0
  rows.map fun r => "  " ++ padRight width r.1 ++ "  " ++ r.2

/-- The lines of a page. -/
def lines (p : Page) : List String :=
  [p.about, "", "Usage: " ++ p.usage] ++
    (p.tables.flatMap fun t => "" :: (t.1 ++ ":") :: tableLines t.2) ++
    (if p.notes.isEmpty then [] else "" :: p.notes)

end Page

/-! ## Rows -/

/-- The choices of an argument, as help texts show them. -/
def choices (names : List String) : String :=
  "[possible values: " ++ ", ".intercalate names ++ "]"

/-- What an option does. -/
def Argument.description : Argument → String
  | .color =>
    "Colorize stderr diagnostics: auto|always|never [default: auto] " ++
      choices ["auto", "always", "never"]
  | .json => "Emit reports and errors as JSON"
  | .format => "Input format; overrides the file extension " ++ choices ["csv", "json"]
  | .yes => "Overwrite an existing output without asking"
  | .help => "Print help"
  | .version => "Print version"
  | .input => "Input table (.csv or .json)"
  | .output => "Output script file"
  | .file => "Script data file"
  | .shell => choices ["bash", "elvish", "fish", "powershell", "zsh"]

/-- The letter of an option, if it has one. -/
def Argument.letter? : Argument → Option Char
  | .yes => some 'y'
  | .help => some 'h'
  | .version => some 'V'
  | _ => none

/-- An option in a table. -/
def Argument.optionRow (a : Argument) : String × String :=
  ((a.letter?.elim "    " fun c => "-" ++ String.singleton c ++ ", ") ++ a.usage, a.description)

/-- An argument without a name in a table. -/
def Argument.positionalRow (a : Argument) : String × String :=
  (a.usage, a.description)

/-- What a command does. -/
def Level.about : Level → String
  | .top => "Compile CSV or JSON event tables into game script data files"
  | .build => "Compile an event table into a script data file"
  | .inspect => "Decode a script data file and print its records"
  | .completion => "Generate shell completion scripts"
  | .help => "Print this message or the help of the given subcommand(s)"

/-- A command in a table. -/
def Level.row (l : Level) : String × String :=
  (l.name, l.about)

/-! ## Pages -/

/-- The help page of a level. -/
def Level.page (l : Level) : Page :=
  match l with
  | .top =>
    { about := l.about
      usage := l.usage
      tables :=
        [("Commands", [Level.build, .inspect, .completion, .help].map Level.row),
          ("Options", [Argument.color, .json, .help, .version].map Argument.optionRow)]
      notes :=
        ["EXAMPLES",
          "  $ mkscript build level1.csv              # writes level1.sdf",
          "  $ mkscript build events.json out/intro.sdf --yes",
          "  $ mkscript inspect level1.sdf",
          "",
          "INPUT",
          "  Every row has six columns: timer, system, to, from, command, arguments.",
          "  CSV files have no header row. JSON files map keys to 6-element arrays.",
          "",
          "LOGGING",
          "  Set RUST_LOG (e.g. RUST_LOG=debug) for pipeline diagnostics on stderr."] }
  | .build =>
    { about := l.about
      usage := l.usage
      tables :=
        [("Arguments", [Argument.input, .output].map Argument.positionalRow),
          ("Options", [Argument.color, .format, .json, .yes, .help].map Argument.optionRow)]
      notes :=
        ["NOTES",
          "  - OUTPUT defaults to INPUT with its extension replaced by .sdf",
          "  - An existing OUTPUT is only replaced after confirmation (or --yes)"] }
  | .inspect =>
    { about := l.about
      usage := l.usage
      tables :=
        [("Arguments", [Argument.file].map Argument.positionalRow),
          ("Options", [Argument.color, .json, .help].map Argument.optionRow)]
      notes := [] }
  | .completion =>
    { about := l.about
      usage := l.usage
      tables :=
        [("Arguments", [Argument.shell].map Argument.positionalRow),
          ("Options", [Argument.color, .json, .help].map Argument.optionRow)]
      notes := [] }
  | .help =>
    { about := l.about
      usage := l.usage
      tables := [("Arguments", [("[COMMAND]...", "Print help for the subcommand(s)")])]
      notes := [] }

end EventScript.CommandLine
