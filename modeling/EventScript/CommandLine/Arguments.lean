import EventScript.Table.Format

/-!
# The command line

What a command line can say. Two options, colour and JSON reports, may stand
before or after the command; everything else belongs to one command.
-/

namespace EventScript.CommandLine

/-- When diagnostics are coloured (`ColorMode`). -/
inductive ColorChoice
  | auto
  | always
  | never
  deriving DecidableEq, Repr

/-- The shells that completion scripts are made for. -/
inductive Shell
  | bash
  | elvish
  | fish
  | powershell
  | zsh
  deriving DecidableEq, Repr

/-- A command (`Command`). -/
inductive Command
  | build (input : Bytes) (output : Option Bytes) (format : Option Table.Format) (yes : Bool)
  | inspect (file : Bytes)
  | completion (shell : Shell)
  deriving DecidableEq, Repr

/-- A whole command line (`Cli`). -/
structure Invocation where
  color : ColorChoice
  json : Bool
  command : Command
  deriving DecidableEq, Repr

namespace ColorChoice

/-- The name of a choice. -/
def label : ColorChoice → String
  | .auto => "auto"
  | .always => "always"
  | .never => "never"

/-- The choice with a given name. -/
def ofLabel? (name : Bytes) : Option ColorChoice :=
  [auto, always, never].find? fun c => Utf8.encode c.label == name

/-- Whether diagnostics are coloured when they go to a terminal or not (`use_color`). -/
def colored (c : ColorChoice) (terminal : Bool) : Bool :=
  match c with
  | .auto => terminal
  | .always => true
  | .never => false

end ColorChoice

namespace Shell

/-- The name of a shell. -/
def label : Shell → String
  | .bash => "bash"
  | .elvish => "elvish"
  | .fish => "fish"
  | .powershell => "powershell"
  | .zsh => "zsh"

/-- The shell with a given name. -/
def ofLabel? (name : Bytes) : Option Shell :=
  [bash, elvish, fish, powershell, zsh].find? fun s => Utf8.encode s.label == name

end Shell

/-! ## Levels and arguments -/

/-- The program itself, and each of its commands: what has arguments and a help text of its own. -/
inductive Level
  | top
  | build
  | inspect
  | completion
  | help
  deriving DecidableEq, Repr

/-- An argument. -/
inductive Argument
  | color
  | json
  | format
  | yes
  | help
  | version
  | input
  | output
  | file
  | shell
  deriving DecidableEq, Repr

namespace Argument

/-- An argument as usage messages write it. -/
def usage : Argument → String
  | .color => "--color <COLOR>"
  | .json => "--json"
  | .format => "--in <INPUT_FORMAT>"
  | .yes => "--yes"
  | .help => "--help"
  | .version => "--version"
  | .input => "<INPUT>"
  | .output => "[OUTPUT]"
  | .file => "<FILE>"
  | .shell => "<SHELL>"

/-- Whether an option takes a value. -/
def takesValue : Argument → Bool
  | .color | .format => true
  | _ => false

end Argument

namespace Level

/-- The name of a command. -/
def name : Level → String
  | .top => ""
  | .build => "build"
  | .inspect => "inspect"
  | .completion => "completion"
  | .help => "help"

/-- The command that a word names. -/
def ofName? (word : Bytes) : Option Level :=
  [build, inspect, completion, help].find? fun l => Utf8.encode l.name == word

/-- The options of a level, by their long names. -/
def options : Level → List (String × Argument)
  | .top => [("color", .color), ("json", .json), ("help", .help), ("version", .version)]
  | .build =>
    [("in", .format), ("yes", .yes), ("color", .color), ("json", .json), ("help", .help)]
  | .inspect | .completion => [("color", .color), ("json", .json), ("help", .help)]
  | .help => []

/-- The options of a level, by their letters. -/
def letters : Level → List (Char × Argument)
  | .top => [('h', .help), ('V', .version)]
  | .build => [('y', .yes), ('h', .help)]
  | .inspect | .completion => [('h', .help)]
  | .help => []

/-- The arguments of a level that have no name, in order. -/
def positionals : Level → List Argument
  | .build => [.input, .output]
  | .inspect => [.file]
  | .completion => [.shell]
  | .top | .help => []

/-- The option with a long name. -/
def option? (l : Level) (name : Bytes) : Option Argument :=
  (l.options.find? fun o => Utf8.encode o.1 == name).map Prod.snd

/-- The option with a letter. -/
def letter? (l : Level) (c : Char) : Option Argument :=
  l.letters.lookup c

/-- How a level is used. -/
def usage : Level → String
  | .top => "mkscript [OPTIONS] <COMMAND>"
  | .build => "mkscript build [OPTIONS] <INPUT> [OUTPUT]"
  | .inspect => "mkscript inspect [OPTIONS] <FILE>"
  | .completion => "mkscript completion [OPTIONS] <SHELL>"
  | .help => "mkscript help [COMMAND]..."

end Level

end EventScript.CommandLine
