set_option autoImplicit false

/-!
# Command lines

A command line names a command, with options before and behind the name. Options have a long name
and may have a short one; some take a value, which follows behind an equals sign, behind the short
name or as the next argument. Options are read from the left to the right, and the first one that
asks for help or for the version decides unless something is wrong before it.

## Main definitions

* `ProgramGraph.Command` — what the program does.
* `ProgramGraph.Command.Request` — what a command line asks for.
* `ProgramGraph.Command.Misuse` — what is wrong with a command line.
* `ProgramGraph.Command.parse` — what a command line asks for, if nothing is wrong with it.
-/

namespace ProgramGraph

/-- What is resolved, and how. -/
structure ResolveOptions where
  /-- The document or the directory to resolve. -/
  input : Option String := none
  /-- How the result is shown. -/
  format : Option String := none
  /-- Where the configuration is kept. -/
  config : Option String := none
deriving DecidableEq, Repr

/-- What the program does. -/
inductive Command where
  /-- Resolves documents. -/
  | resolve (options : ResolveOptions)
  /-- Shows what texts stand for as types. -/
  | types (texts : List String)
  /-- Writes a configuration to begin with. -/
  | init (overwrite : Bool) (config : Option String)
deriving DecidableEq, Repr

namespace Command

/-- What a command line asks for. -/
inductive Request where
  | run (command : Command)
  | version
  /-- Help on the program, or on one of its commands. -/
  | help (command : Option String)
deriving DecidableEq, Repr

/-- What is wrong with a command line. -/
inductive Misuse where
  | noCommand
  | unknownCommand (name : String)
  | unexpected (argument : String)
  | missingValue (option : String)
  | repeated (option : String)
  | missing (option : String)
deriving DecidableEq, Repr

/-- What is said about a wrong command line. -/
def Misuse.message : Misuse → String
  | .noCommand => "a command is required"
  | .unknownCommand name => s!"unrecognized command '{name}'"
  | .unexpected argument => s!"unexpected argument '{argument}' found"
  | .missingValue option => s!"a value is required for '--{option}' but none was supplied"
  | .repeated option => s!"the argument '--{option}' cannot be used multiple times"
  | .missing option => s!"the argument '--{option}' is required"

/-! ## Options -/

/-- What an option takes, and how often it may be given. -/
inductive Arity where
  /-- No value; once. -/
  | switch
  /-- A text; once. -/
  | text
  /-- A text that is not empty; once. -/
  | path
  /-- A text; any number of times. -/
  | texts
  /-- No value: asks for help. -/
  | help
  /-- No value: asks for the version. -/
  | version
deriving DecidableEq, Repr

/-- An option. -/
structure Parameter where
  long : String
  short : Option Char := none
  arity : Arity
deriving DecidableEq, Repr

/-- Whether an option takes a value. -/
def Parameter.takesValue (p : Parameter) : Bool :=
  match p.arity with
  | .text | .path | .texts => true
  | .switch | .help | .version => false

/-- The options that were given, with their values, in the order they were given in. -/
abbrev Given := List (String × String)

/-- The values of an option. -/
def Given.values (given : Given) (long : String) : List String :=
  (given.filter fun option => option.1 = long).map Prod.snd

/-- The value of an option that is given at most once. -/
def Given.value? (given : Given) (long : String) : Option String := (given.values long).head?

/-- Whether an option was given. -/
def Given.has (given : Given) (long : String) : Bool := given.any fun option => option.1 = long

/-- Why options are not read any further. -/
inductive Stop where
  | help
  | version
  | misuse (m : Misuse)
deriving DecidableEq, Repr

/-- The options with one more of them. -/
def Given.add (given : Given) (p : Parameter) (value : String) : Except Stop Given :=
  match p.arity with
  | .help => .error .help
  | .version => .error .version
  | .texts => .ok (given ++ [(p.long, value)])
  | arity =>
    if given.has p.long then .error (.misuse (.repeated p.long))
    else if arity = .path && value.isEmpty then .error (.misuse (.missingValue p.long))
    else .ok (given ++ [(p.long, value)])

/-- Whether an argument is an option, or several of them, and no value. -/
def isOption (argument : String) : Bool :=
  match argument.toList with
  | '-' :: _ :: _ => true
  | _ => false

/-- Adds an option whose value is the next argument, and answers the arguments behind it. -/
def addNext (given : Given) (p : Parameter) : List String → Except Stop (Given × List String)
  | [] => .error (.misuse (.missingValue p.long))
  | value :: rest =>
    if isOption value then .error (.misuse (.missingValue p.long))
    else (given.add p value).map fun given => (given, rest)

/-- Adds an option by its long name, without the dashes. -/
def addLong (parameters : List Parameter) (given : Given) (name : List Char)
    (rest : List String) : Except Stop (Given × List String) :=
  let long := String.ofList (name.takeWhile (· ≠ '='))
  let behind := name.dropWhile (· ≠ '=')
  match parameters.find? fun p => p.long = long with
  | none => .error (.misuse (.unexpected ("--" ++ String.ofList name)))
  | some p =>
    match p.takesValue, behind with
    | true, [] => addNext given p rest
    | true, _ :: value => (given.add p (String.ofList value)).map fun given => (given, rest)
    | false, [] => (given.add p "").map fun given => (given, rest)
    | false, _ :: _ => .error (.misuse (.unexpected ("--" ++ String.ofList name)))

/-- The value that is attached to a short name. -/
def attached : List Char → String
  | '=' :: value => String.ofList value
  | value => String.ofList value

/-- Adds options by their short names, without the dash. Behind an option that takes a value
follows its value. -/
def addShort (parameters : List Parameter) (rest : List String) (given : Given) :
    List Char → Except Stop (Given × List String)
  | [] => .ok (given, rest)
  | c :: behind =>
    match parameters.find? fun p => p.short = some c with
    | none => .error (.misuse (.unexpected ("-" ++ String.ofList (c :: behind))))
    | some p =>
      if p.takesValue then
        if behind.isEmpty then addNext given p rest
        else (given.add p (attached behind)).map fun given => (given, rest)
      else do addShort parameters rest (← given.add p "") behind

/-- The options up to the first argument that is none, and that argument with those behind it, in
at most `steps` steps. -/
def readOptions (parameters : List Parameter) :
    Nat → Given → List String → Except Stop (Given × List String)
  | 0, given, arguments => .ok (given, arguments)
  | _ + 1, given, [] => .ok (given, [])
  | steps + 1, given, argument :: rest =>
    match argument.toList with
    | ['-', '-'] =>
      match rest with
      | [] => .ok (given, [])
      | argument :: _ => .error (.misuse (.unexpected argument))
    | '-' :: '-' :: name => do
      let (given, rest) ← addLong parameters given name rest
      readOptions parameters steps given rest
    | '-' :: c :: names => do
      let (given, rest) ← addShort parameters rest given (c :: names)
      readOptions parameters steps given rest
    | _ => .ok (given, argument :: rest)

/-! ## Commands -/

/-- The option that asks for help. -/
def helpParameter : Parameter := { long := "help", short := some 'h', arity := .help }

/-- The option that asks for details on standard error. -/
def verboseParameter : Parameter := { long := "verbose", short := some 'v', arity := .switch }

/-- The options before the name of the command. -/
def programParameters : List Parameter :=
  [verboseParameter, helpParameter, { long := "version", short := some 'V', arity := .version }]

/-- The option for the place of the configuration. -/
def configParameter : Parameter := { long := "config", short := some 'c', arity := .path }

/-- The options behind the name of a command. -/
def parametersOf? : String → Option (List Parameter)
  | "resolve" => some [verboseParameter, helpParameter, configParameter,
      { long := "input", short := some 'i', arity := .path },
      { long := "format", short := some 'f', arity := .text }]
  | "types" => some [verboseParameter, helpParameter,
      { long := "raw", short := some 'r', arity := .texts }]
  | "init" => some [verboseParameter, helpParameter, configParameter,
      { long := "force", arity := .switch }]
  | _ => none

/-- The command with a name and options. -/
def ofGiven (name : String) (given : Given) : Except Stop Command :=
  match name with
  | "types" =>
    if given.has "raw" then .ok (.types (given.values "raw"))
    else .error (.misuse (.missing "raw"))
  | "init" => .ok (.init (given.has "force") (given.value? "config"))
  | _ => .ok (.resolve {
      input := given.value? "input"
      format := given.value? "format"
      config := given.value? "config" })

/-- What a stop asks for. Help is on the command whose options were read. -/
def Stop.request (command : Option String) : Stop → Except Misuse Request
  | .help => .ok (.help command)
  | .version => .ok .version
  | .misuse m => .error m

/-- The request for help on the commands that are named. -/
def parseHelp : List String → Except Misuse Request
  | [] => .ok (.help none)
  | [name] =>
    if name = "help" || (parametersOf? name).isSome then .ok (.help (some name))
    else .error (.unknownCommand name)
  | _ :: name :: _ => .error (.unknownCommand name)

/-- The command with a name, from the arguments behind the name. -/
def parseCommand (name : String) (arguments : List String) : Except Misuse Request :=
  match parametersOf? name with
  | none => .error (.unknownCommand name)
  | some parameters =>
    match readOptions parameters (arguments.length + 1) [] arguments with
    | .error stop => stop.request (some name)
    | .ok (_, stray :: _) => .error (.unexpected stray)
    | .ok (given, []) =>
      match ofGiven name given with
      | .error stop => stop.request (some name)
      | .ok command => .ok (.run command)

/-- What a command line asks for, if nothing is wrong with it. -/
def parse (arguments : List String) : Except Misuse Request :=
  match readOptions programParameters (arguments.length + 1) [] arguments with
  | .error stop => stop.request none
  | .ok (_, []) => .error .noCommand
  | .ok (_, name :: rest) => if name = "help" then parseHelp rest else parseCommand name rest

end Command

end ProgramGraph
