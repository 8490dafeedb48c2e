import ProtoSchema.CommandLine.Arguments
import ProtoSchema.CommandLine.FileTree
import ProtoSchema.Conversion
import ProtoSchema.Descriptor.Load

/-! What the command line does: it loads the descriptors in the order of the arguments into one
catalog, converts that and prints the result or writes it to a file.
-/

namespace ProtoSchema.CommandLine

open Schema

def usage : String :=
  "Convert protobuf descriptors into GraphQL SDL types or TypeScript declarations

Usage: protoshape <COMMAND> [OPTIONS] <DESCRIPTOR>...

Commands:
  graphql     Print GraphQL type definitions for the selected types and everything they reference
  typescript  Print TypeScript declarations for the selected types

Arguments:
  <DESCRIPTOR>...  protobuf.js JSON file, or a directory searched for *.json files

Options:
      --type <TYPE>      Convert only this type (repeatable; default: every type)
      --input <TYPE>     Emit this message as a GraphQL input type (repeatable)
      --int64-as-number  Map 64-bit integers to Float/number instead of String/string
  -o, --output <FILE>    Write to FILE instead of stdout
  -h, --help             Print help
  -V, --version          Print version
"

def version : String :=
  "protoshape 0.1.0\n"

/-- A failure to read or write a file. -/
def fileReport (activity path : String) (fault : FileFault) : Report :=
  ⟨[activity ++ " " ++ path], .failure fault.message⟩

/-- A failure to search a directory for descriptor files. -/
def searchReport (path : String) (failure : SearchFault) : Report :=
  ⟨["search " ++ path], .failure failure.message⟩

/-- Loads the file at a path; `find` gives what a path leads to. -/
def loadFile (find : String → Except FileFault Entry) (catalog : Catalog) (path : String)
    : Except Report Catalog := do
  let text ← ((find path).bind Entry.text).mapError (fileReport "read" path)
  let (result, loaded) := Descriptor.loadText catalog path text
  result.map fun _ => loaded

/-- Loads the descriptor files of the directory at a path, all of which are found before the first
is read.
-/
def loadDirectory (find : String → Except FileFault Entry) (catalog : Catalog) (path : String)
    (directory : Entry)
    : Except Report Catalog := do
  let paths ← (directory.descriptorPaths path "").mapError (searchReport path)
  if paths.isEmpty then
    .error ⟨[], .failure ("no descriptor files (*.json) found in " ++ path)⟩
  else paths.foldlM (loadFile find) catalog

/-- Loads the file at a path, or the descriptor files of the directory there. -/
def loadPath (find : String → Except FileFault Entry) (catalog : Catalog) (path : String)
    : Except Report Catalog :=
  match find path with
  | .ok (.directory entries) => loadDirectory find catalog path (.directory entries)
  | _ => loadFile find catalog path

def Settings.conversion (settings : Settings) : Conversion where
  selected := settings.types
  inputs := settings.inputs
  int64 := settings.int64

/-- What a conversion gives to print or to write, and what there is to warn about. -/
structure Product where
  content : String
  warnings : List Warning := []
deriving DecidableEq, Repr

/-- Definitions separated by blank lines. -/
def joinDefinitions (definitions : List String) : String :=
  if definitions.isEmpty then "" else "\n\n".intercalate definitions ++ "\n"

def Options.convert (options : Options) (catalog : Catalog) : Except Report Product :=
  match options.command with
  | .graphQL => do
      let definitions ← options.settings.conversion.graphQL catalog
      .ok { content := joinDefinitions definitions }
  | .typeScript => do
      let output ← options.settings.conversion.typeScript catalog
      .ok { content := output.source, warnings := output.warnings }

/-- Loads the descriptors and converts them. -/
def Options.produce (options : Options) (find : String → Except FileFault Entry)
    : Except Report Product := do
  options.convert (← options.settings.descriptors.foldlM (loadPath find) {})

/-- What a run leaves behind. -/
structure Outcome where
  printed : String := ""
  warnings : List Warning := []
  result : Except Report Unit := .ok ()
  files : Entry

/-- Runs a command on a tree of files. -/
def Options.run (options : Options) (files : Entry) : Outcome :=
  match options.produce files.find with
  | .error report => { result := .error report, files }
  | .ok product =>
      match options.settings.output with
      | none => { printed := product.content, warnings := product.warnings, files }
      | some path =>
          match files.write path product.content.toUTF8 with
          | .ok files => { warnings := product.warnings, files }
          | .error fault =>
              { warnings := product.warnings, result := .error (fileReport "write" path fault),
                files }

/-- How a program ends: its exit code, and what it wrote to its two outputs. -/
structure Ending where
  code : UInt32
  printed : String
  messages : List String
deriving DecidableEq, Repr

/-- The ending after wrong arguments. -/
def ArgumentError.ending (error : ArgumentError) : Ending :=
  ⟨1, "", [error.message, "run `protoshape --help` for usage"]⟩

/-- The ending with a report, after some warnings. -/
def reportEnding (warnings : List Warning) (report : Report) : Ending :=
  ⟨1, "", warnings.map Warning.message ++ report.chain⟩

def Outcome.ending (outcome : Outcome) : Ending :=
  match outcome.result with
  | .ok _ => ⟨0, outcome.printed, outcome.warnings.map Warning.message⟩
  | .error report => reportEnding outcome.warnings report

/-- Runs the program on a tree of files, and gives the tree that is left. -/
def execute (arguments : List String) (files : Entry) : Ending × Entry :=
  match parseArguments arguments with
  | .error error => (error.ending, files)
  | .ok .help => (⟨0, usage, []⟩, files)
  | .ok .version => (⟨0, version, []⟩, files)
  | .ok (.run options) =>
      let outcome := options.run files
      (outcome.ending, outcome.files)

end ProtoSchema.CommandLine
