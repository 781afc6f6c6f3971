/-!
# The command line

A command and its arguments, and two options that may stand before or behind the command. Each
argument that begins with a hyphen and has more than that is an option, up to an argument that
consists of two hyphens: behind it there are no options any more. Nothing is abbreviated.

The arguments are read from left to right, and the first one that settles the matter ends the
reading: a mistake in front of the option for help is reported, and one behind it is not noticed.
-/

namespace LiveQuery.Command

inductive Task where
  /-- Evaluate statements on every event of a feed. -/
  | query (feed : String) (statements : List String)
  | check (statement : String)
  | functions
  | config
deriving DecidableEq, Repr

structure Options where
  config : Option String := none
  server : Option String := none
deriving DecidableEq, Repr

inductive Invocation where
  | run (task : Task) (options : Options)
  | version
  | help
deriving DecidableEq, Repr

inductive UsageError where
  | missingCommand
  | unknownCommand (name : String)
  | unknownOption (argument : String)
  | missingValue (option : String)
  | unexpectedValue (option : String)
  | repeatedOption (option : String)
  | emptyPath
  | missingArgument (name : String)
  | extraArgument (argument : String)
deriving DecidableEq, Repr

def UsageError.message : UsageError → String
  | .missingCommand => "a command is required"
  | .unknownCommand name => "unrecognized command '" ++ name ++ "'"
  | .unknownOption argument => "unexpected argument '" ++ argument ++ "'"
  | .missingValue option => "a value is required for '" ++ option ++ "'"
  | .unexpectedValue option => "unexpected value for '" ++ option ++ "'"
  | .repeatedOption option => "'" ++ option ++ "' cannot be used multiple times"
  | .emptyPath => "the path of the settings is empty"
  | .missingArgument name => "the argument " ++ name ++ " is missing"
  | .extraArgument argument => "unexpected argument '" ++ argument ++ "'"

inductive OptionName where
  | config
  | server
  | help
  | version
deriving DecidableEq, Repr

def longName? (name : String) : Option OptionName :=
  [("config", OptionName.config), ("upstream", .server), ("help", .help),
    ("version", .version)].lookup name

def shortName? (c : Char) : Option OptionName :=
  [('c', OptionName.config), ('h', .help), ('V', .version)].lookup c

def OptionName.hasValue : OptionName → Bool
  | .config | .server => true
  | .help | .version => false

/-- An argument by its shape. -/
inductive Shape where
  | plain (value : String)
  | separator
  | long (name : String) (value : Option String)
  | short (letter : Char) (rest : List Char)
deriving DecidableEq, Repr

/-- The shape of an argument. A hyphen alone is a plain argument. -/
def shapeOf (argument : String) : Shape :=
  match argument.toList with
  | ['-', '-'] => .separator
  | '-' :: '-' :: cs =>
    let name := cs.takeWhile (· != '=')
    .long (String.ofList name) ((cs.dropWhile (· != '=')).tail?.map String.ofList)
  | '-' :: c :: cs => .short c cs
  | _ => .plain argument

/-- A command line as it is read from left to right. -/
structure Draft where
  command : Option String := none
  arguments : List String := []
  before : Options := {}
  behind : Options := {}
  /-- The option whose value is the next argument. -/
  awaiting : Option OptionName := none
  /-- Whether the two hyphens have come. -/
  plainOnly : Bool := false
deriving DecidableEq, Repr

/-- Why the reading stops before the end: it is clear what is asked for, or that nothing can be. -/
inductive Stop where
  | answer (invocation : Invocation)
  | mistake (error : UsageError)
deriving DecidableEq, Repr

namespace Draft

/-- The options of the side on which the reading is. -/
def options (d : Draft) : Options := if d.command.isSome then d.behind else d.before

/-- The draft with these options on the side on which the reading is. -/
def setOptions (d : Draft) (options : Options) : Draft :=
  if d.command.isSome then { d with behind := options, awaiting := none }
  else { d with before := options, awaiting := none }

/-- Takes an option with its value. On each side an option counts once. -/
def setOption (d : Draft) (name : OptionName) (value : String) : Except Stop Draft :=
  let options := d.options
  match name with
  | .config =>
    if options.config.isSome then .error (.mistake (.repeatedOption "--config"))
    else if value = "" then .error (.mistake .emptyPath)
    else .ok (d.setOptions { options with config := some value })
  | .server =>
    if options.server.isSome then .error (.mistake (.repeatedOption "--upstream"))
    else .ok (d.setOptions { options with server := some value })
  | .help => .error (.answer .help)
  | .version =>
    if d.command.isSome then .error (.mistake (.unknownOption "--version"))
    else .error (.answer .version)

/-- Takes an option. Its value is attached to it or comes next. -/
def option (d : Draft) (name : OptionName) (value : Option String) : Except Stop Draft :=
  match value with
  | some value => d.setOption name value
  | none => if name.hasValue then .ok { d with awaiting := some name } else d.setOption name ""

def commands : List String := ["query", "check", "functions", "config", "help"]

/-- How many arguments a command takes at most, if there is a limit. -/
def limit? (command : String) : Option Nat :=
  [("check", 1), ("functions", 0), ("config", 0), ("help", 1)].lookup command

/-- Takes an argument of a command, if the command has room for it. -/
def argument (d : Draft) (command argument : String) : Except Stop Draft :=
  if (limit? command).any (· ≤ d.arguments.length) then .error (.mistake (.extraArgument argument))
  else .ok { d with arguments := d.arguments ++ [argument] }

/-- Takes a plain argument: the first one is the command, and this one cannot stand behind the two
hyphens. -/
def plain (d : Draft) (argument : String) : Except Stop Draft :=
  match d.command with
  | some command => d.argument command argument
  | none =>
    if commands.contains argument && !d.plainOnly then .ok { d with command := some argument }
    else .error (.mistake (.unknownCommand argument))

/-- Takes what help is asked for about, which has to be a command: help has no options. -/
def topic (d : Draft) (argument : String) : Except Stop Draft :=
  if commands.contains argument then d.argument "help" argument
  else .error (.mistake (.unknownCommand argument))

def next (d : Draft) (argument : String) : Except Stop Draft :=
  if d.command = some "help" then d.topic argument
  else if d.plainOnly then d.plain argument
  else match d.awaiting, shapeOf argument with
    | some name, .plain value => d.setOption name value
    | some _, _ => .error (.mistake (.missingValue argument))
    | none, .plain value => d.plain value
    | none, .separator => .ok { d with plainOnly := true }
    | none, .long name value =>
      match longName? name with
      | none => .error (.mistake (.unknownOption argument))
      | some name =>
        if value.isSome && !name.hasValue then .error (.mistake (.unexpectedValue argument))
        else d.option name value
    | none, .short letter rest =>
      match shortName? letter with
      | none => .error (.mistake (.unknownOption argument))
      | some name =>
        match rest with
        | [] => d.option name none
        | '=' :: rest => d.option name (some (String.ofList rest))
        | rest => d.option name (some (String.ofList rest))

/-- The options that count: those behind the command come first. -/
def merged (d : Draft) : Options :=
  ⟨d.behind.config <|> d.before.config, d.behind.server <|> d.before.server⟩

/-- What the command line asks for, at its end. There is no argument too many by then. -/
def finish (d : Draft) : Except UsageError Invocation :=
  if d.awaiting.isSome then .error (.missingValue "")
  else match d.command, d.arguments with
    | none, _ => .error .missingCommand
    | some "help", _ => .ok .help
    | some "query", [] => .error (.missingArgument "<FEED>")
    | some "query", [_] => .error (.missingArgument "<STATEMENTS>")
    | some "query", feed :: statements => .ok (.run (.query feed statements) d.merged)
    | some "check", [] => .error (.missingArgument "<STATEMENT>")
    | some "check", statement :: _ => .ok (.run (.check statement) d.merged)
    | some "functions", _ => .ok (.run .functions d.merged)
    | some "config", _ => .ok (.run .config d.merged)
    | some name, _ => .error (.unknownCommand name)

end Draft

def parse (arguments : List String) : Except UsageError Invocation :=
  match arguments.foldlM Draft.next {} with
  | .ok d => d.finish
  | .error (.answer invocation) => .ok invocation
  | .error (.mistake e) => .error e

end LiveQuery.Command
