import EventScript.CommandLine.Refusal

/-!
# Reading command lines

Arguments are taken one after another; what is wrong is reported in that order, and what is missing last.
A word that names a command opens that command's level, where the rest belongs to it. At each level two
dashes end the options; before any command they also end the commands, so that a word which would have
named one is an argument too many.

The value of an option, and an argument without a name, are kept back until the next argument has been
recognised, and checked then. So an argument that is not recognised at all is refused before the value in
front of it is looked at.
-/

namespace EventScript.CommandLine

/-- How reading ends when it gives no command to run. -/
inductive Stop
  /-- The help text of a level is asked for. -/
  | help (level : Level)
  /-- The version is asked for. -/
  | version
  /-- Nothing at all is said. -/
  | overview
  | refused (r : Refusal)
  deriving DecidableEq, Repr

/-- The values that a level has been given. -/
structure Values where
  color : Option ColorChoice := none
  json : Bool := false
  format : Option Table.Format := none
  yes : Bool := false
  input : Option Bytes := none
  output : Option Bytes := none
  file : Option Bytes := none
  shell : Option Shell := none
  deriving DecidableEq, Repr

namespace Values

/-- Whether an argument has been given. -/
def has (v : Values) : Argument → Bool
  | .color => v.color.isSome
  | .json => v.json
  | .format => v.format.isSome
  | .yes => v.yes
  | .input => v.input.isSome
  | .output => v.output.isSome
  | .file => v.file.isSome
  | .shell => v.shell.isSome
  | .help | .version => false

/-- Gives an argument a value, or a flag none. Choices are among names; paths are anything. -/
def assign (v : Values) (a : Argument) (value : Bytes) : Except Refusal Values :=
  let choose {α : Type} (found : Option α) (set : α → Values) : Except Refusal Values :=
    match found with
    | some x => .ok (set x)
    | none => .error (.badValue value a)
  match a with
  | .json => .ok { v with json := true }
  | .yes => .ok { v with yes := true }
  | .help | .version => .ok v
  | _ =>
    if value = [] then .error (.missingValue a)
    else
      match a with
      | .color => choose (ColorChoice.ofLabel? value) fun c => { v with color := some c }
      | .format => choose (Table.Format.ofLabel? value) fun f => { v with format := some f }
      | .shell => choose (Shell.ofLabel? value) fun s => { v with shell := some s }
      | .input => .ok { v with input := some value }
      | .output => .ok { v with output := some value }
      | _ => .ok { v with file := some value }

end Values

/-! ## One level -/

/-- What has been kept back. -/
inductive Pending
  | nothing
  /-- An option whose value comes next. -/
  | awaiting (a : Argument)
  /-- An option whose value can no longer come. -/
  | lacking (a : Argument)
  /-- An argument with its value. -/
  | given (a : Argument) (value : Bytes)
  deriving DecidableEq, Repr

/-- How far the reading of a level has come. -/
structure Progress where
  values : Values := {}
  pending : Pending := .nothing
  /-- How many arguments without a name there have been. -/
  count : Nat := 0
  /-- Whether the options have been ended. -/
  ended : Bool := false
  deriving DecidableEq, Repr

namespace Progress

/-- Takes an argument with its value, unless there has been one. -/
def accept (p : Progress) (l : Level) (a : Argument) (value : Bytes) : Except Stop Progress :=
  if p.values.has a then .error (.refused (.repeated a l))
  else
    match p.values.assign a value with
    | .error r => .error (.refused r)
    | .ok values => .ok { p with values }

/-- Takes what has been kept back. -/
def settle (p : Progress) (l : Level) : Except Stop Progress :=
  match p.pending with
  | .nothing => .ok p
  | .awaiting a | .lacking a => .error (.refused (.missingValue a))
  | .given a value => { p with pending := .nothing }.accept l a value

/-- Takes an option without a value. Help and version end the reading. -/
def takeFlag (p : Progress) (l : Level) (a : Argument) : Except Stop Progress := do
  let p ← p.settle l
  match a with
  | .help => throw (.help l)
  | .version => throw .version
  | _ => p.accept l a []

/-- Takes an argument that starts with two dashes, past them. -/
def takeOption (p : Progress) (l : Level) (word : Bytes) : Except Stop Progress :=
  let name := word.takeWhile (· != Ascii.equals)
  let attached := (word.dropWhile (· != Ascii.equals)).tail?
  match l.option? name, attached with
  | none, _ => .error (.refused (.unknownArgument ("--" ++ Utf8.lossy name) l))
  | some a, none =>
    if a.takesValue then do
      let p ← p.settle l
      return { p with pending := .awaiting a }
    else p.takeFlag l a
  | some a, some value =>
    if a.takesValue then do
      let p ← p.settle l
      p.accept l a value
    else .error (.refused (.surplusValue value a l))

/-- Takes the letters after one dash. -/
def takeLetters (p : Progress) (l : Level) : List Utf8.Piece → Except Stop Progress
  | [] => .ok p
  | .char c :: rest =>
    match l.letter? c with
    | none => .error (.refused (.unknownArgument ("-" ++ String.singleton c) l))
    | some a => do
      let p ← p.takeFlag l a
      p.takeLetters l rest
  | rest@(.invalid _ :: _) =>
    .error (.refused (.unknownArgument ("-" ++ String.ofList (rest.map Utf8.Piece.shown)) l))

/-- Takes a word that is neither option nor command. -/
def takeWord (p : Progress) (l : Level) (word : Bytes) : Except Stop Progress :=
  match p.pending with
  | .awaiting a => .ok { p with pending := .given a word }
  | _ =>
    match l.positionals[p.count]? with
    | some a => do
      let p ← p.settle l
      return { p with pending := .given a word, count := p.count + 1 }
    | none =>
      if l = .top ∧ (Level.ofName? word).isNone then .error (.refused (.unknownCommand word l))
      else .error (.refused (.unknownArgument (Utf8.lossy word) l))

/-- Ends the options. -/
def endOptions (p : Progress) : Progress :=
  let pending := match p.pending with
    | .awaiting a => .lacking a
    | other => other
  { p with pending, ended := true }

/-- Takes an argument that opens no level. -/
def take (p : Progress) (l : Level) (argument : Bytes) : Except Stop Progress :=
  if p.ended then p.takeWord l argument
  else
    match argument with
    | [] | [_] => p.takeWord l argument
    | a :: b :: rest =>
      if a ≠ Ascii.minus then p.takeWord l argument
      else if b ≠ Ascii.minus then p.takeLetters l (Utf8.pieces (b :: rest))
      else if rest = [] then .ok p.endOptions
      else p.takeOption l rest

/-- Whether a word can open a command: options have not been ended, and no value is due. -/
def allowsCommand (p : Progress) : Bool :=
  !p.ended && (match p.pending with
    | .awaiting _ => false
    | _ => true)

end Progress

/-! ## The whole line -/

/-- Where the reading of a command line stands. -/
inductive State
  /-- Before any command. -/
  | top (p : Progress)
  /-- In the arguments of a command. -/
  | command (outer : Progress) (l : Level) (p : Progress)
  /-- In the words after `help`, which lead to a level. -/
  | helping (l : Level)
  deriving DecidableEq, Repr

namespace State

/-- Takes an argument. -/
def step : State → Bytes → Except Stop State
  | .top p, argument =>
    match (if p.allowsCommand then Level.ofName? argument else none) with
    | some .help => .ok (.helping .top)
    | some l => .ok (.command p l {})
    | none => (p.take .top argument).map .top
  | .command outer l p, argument => (p.take l argument).map (.command outer l)
  | .helping l, argument =>
    match (if l = .top then Level.ofName? argument else none) with
    | some named => .ok (.helping named)
    | none => .error (.refused (.unknownCommand argument l))

/-- The command of a level with given values, if none that it requires is missing. -/
def commandOf? (l : Level) (v : Values) : Option Command :=
  match l with
  | .build => v.input.map fun input => .build input v.output v.format v.yes
  | .inspect => v.file.map .inspect
  | .completion => v.shell.map .completion
  | .top | .help => none

/-- What the line says when it ends. An option given at both levels has its inner value. -/
def finish : State → Except Stop Invocation
  | .top p => do
    let p ← p.settle .top
    if p.values = {} then throw .overview
    throw (.refused .missingCommand)
  | .command outer l p => do
    let p ← p.settle l
    match commandOf? l p.values with
    | none => throw (.refused (.missingArgument l))
    | some named =>
      let outer ← outer.settle .top
      return {
        color := (p.values.color <|> outer.values.color).getD .auto
        json := p.values.json || outer.values.json
        command := named }
  | .helping l => throw (.help l)

end State

/-- What a command line says. -/
def parse (arguments : List Bytes) : Except Stop Invocation := do
  let s ← arguments.foldlM State.step (.top {})
  s.finish

end EventScript.CommandLine
