import ProtoSchema.Schema.Scalar
import ProtoSchema.Text.Quote

/-! Arguments of the command line. Options and positional arguments may come in any order; the
first positional argument is the command and the others are descriptors. An option takes its value
from its own argument or else from the next one, whatever that looks like.
-/

namespace ProtoSchema.CommandLine

inductive Command where
  | graphQL
  | typeScript
deriving DecidableEq, Repr

def Command.word : Command → String
  | .graphQL => "graphql"
  | .typeScript => "typescript"

def Command.ofWord? (word : String) : Option Command :=
  [graphQL, typeScript].find? fun command => command.word = word

/-- What the options and the descriptors of a command ask for. -/
structure Settings where
  descriptors : List String := []
  types : List String := []
  inputs : List String := []
  int64 : Schema.Integer64 := .text
  output : Option String := none
deriving DecidableEq, Repr

structure Options where
  command : Command
  settings : Settings
deriving DecidableEq, Repr

/-- What the command line asks for. -/
inductive Request where
  | help
  | version
  | run (options : Options)
deriving DecidableEq, Repr

/-- The ways in which arguments can be wrong. -/
inductive ArgumentError where
  | missingValue (option : String)
  | unexpectedValue (option value : String)
  | invalidOption (option : String)
  | unknownCommand (word : String)
deriving DecidableEq, Repr

def ArgumentError.message : ArgumentError → String
  | .missingValue option => s!"missing argument for option '{option}'"
  | .unexpectedValue option value =>
      s!"unexpected argument for option '{option}': " ++ Text.quote value
  | .invalidOption option => s!"invalid option '{option}'"
  | .unknownCommand word => s!"unknown command `{word}`"

/-- The forms of an argument. An option may have its value attached. -/
inductive Argument where
  | positional (text : String)
  | separator
  | option (name : String) (attached : Option String)
deriving DecidableEq, Repr

/-- A long option, whose value follows the first equals sign. -/
def longOption (body : List Char) : Argument :=
  let name := "--" ++ .ofList (body.takeWhile (· ≠ '='))
  match body.dropWhile (· ≠ '=') with
  | [] => .option name none
  | _ :: value => .option name (some (.ofList value))

/-- A short option, whose value is what follows its letter, less an equals sign in between. -/
def shortOption (letter : Char) (rest : List Char) : Argument :=
  let name := .ofList ['-', letter]
  match rest with
  | [] => .option name none
  | '=' :: value => .option name (some (.ofList value))
  | value => .option name (some (.ofList value))

/-- The form of an argument that comes before the separator; a lone dash is positional. -/
def Argument.ofText (text : String) : Argument :=
  match text.toList with
  | ['-', '-'] => .separator
  | '-' :: '-' :: body => longOption body
  | '-' :: letter :: rest => shortOption letter rest
  | _ => .positional text

/-- The options that take no value and those that do. -/
inductive Switch where
  | help
  | version
  | type
  | input
  | int64AsNumber
  | output
deriving DecidableEq, Repr

def Switch.ofName? : String → Option Switch
  | "-h" | "--help" => some .help
  | "-V" | "--version" => some .version
  | "--type" => some .type
  | "--input" => some .input
  | "--int64-as-number" => some .int64AsNumber
  | "-o" | "--output" => some .output
  | _ => none

/-- What the arguments so far ask for. -/
structure Draft where
  command : Option Command := none
  settings : Settings := {}
deriving DecidableEq, Repr

/-- Adds a positional argument: the command if there is none, else a descriptor. -/
def Draft.addPositional (draft : Draft) (text : String) : Except ArgumentError Draft :=
  match draft.command with
  | some _ =>
      .ok { draft with
        settings.descriptors := draft.settings.descriptors ++ [text] }
  | none =>
      match Command.ofWord? text with
      | some command => .ok { draft with command := some command }
      | none => .error (.unknownCommand text)

/-- Adds the value of an option; options without a value ignore it. -/
def Draft.addValue (draft : Draft) (switch : Switch) (value : String) : Draft :=
  match switch with
  | .type => { draft with settings.types := draft.settings.types ++ [value] }
  | .input => { draft with settings.inputs := draft.settings.inputs ++ [value] }
  | .output => { draft with settings.output := some value }
  | .help | .version | .int64AsNumber => draft

/-- The request, once all arguments are read. -/
def Draft.finish (draft : Draft) : Except ArgumentError Request :=
  match draft.command with
  | none => .error (.missingValue "<COMMAND>")
  | some command =>
      if draft.settings.descriptors.isEmpty then .error (.missingValue "<DESCRIPTOR>")
      else .ok (.run ⟨command, draft.settings⟩)

/-- Reads arguments one after the other. -/
def readArguments (draft : Draft) : List String → Except ArgumentError Request
  | [] => draft.finish
  | text :: rest =>
      match Argument.ofText text with
      | .separator => do (← rest.foldlM Draft.addPositional draft).finish
      | .positional text => do readArguments (← draft.addPositional text) rest
      | .option name attached =>
          match Switch.ofName? name, attached with
          | none, _ => .error (.invalidOption name)
          | some .help, _ => .ok .help
          | some .version, _ => .ok .version
          | some .int64AsNumber, some value => .error (.unexpectedValue name value)
          | some .int64AsNumber, none =>
              readArguments { draft with settings.int64 := .number } rest
          | some switch, some value => readArguments (draft.addValue switch value) rest
          | some switch, none =>
              match rest with
              | [] => .error (.missingValue name)
              | value :: rest => readArguments (draft.addValue switch value) rest

/-- What the arguments ask for. -/
def parseArguments (arguments : List String) : Except ArgumentError Request :=
  readArguments {} arguments

end ProtoSchema.CommandLine
