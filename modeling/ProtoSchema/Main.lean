import ProtoSchema.CommandLine.Run

/-! The program: it takes a picture of the files that the arguments name, runs the command on it
and prints what that gives.
-/

namespace ProtoSchema

open CommandLine

/-- The reason for which the system did not read or write a file. Some of its functions negate the
codes of errors.
-/
def faultOf (error : IO.Error) : FileFault :=
  match error with
  | .noFileOrDirectory .. => .notFound
  | .inappropriateType _ code _ =>
      if code = 20 ∨ -code = 20 then .notDirectory
      else if code = 21 ∨ -code = 21 then .isDirectory
      else .other (toString error)
  | error => .other (toString error)

/-- The directory at a path; the contents of the files in it are left out. -/
partial def readDirectory (path : String) : IO Entry := do
  let place : IO.FS.DirEntry := { root := path, fileName := "" }
  if ← place.root.isDir then
    let entries ← (← place.root.readDir).toList.mapM fun entry => do
      pure (entry.fileName, ← readDirectory (joinPath path entry.fileName))
    pure (.directory entries)
  else
    pure (.file .empty)

/-- What reading a place gives, or why it cannot be read. -/
def attempt (reading : IO Entry) : IO (Except FileFault Entry) := do
  try
    pure (.ok (← reading))
  catch error =>
    pure (.error (faultOf error))

def readFile (path : String) : IO (String × Except FileFault Entry) := do
  pure (path, ← attempt (Entry.file <$> IO.FS.readBinFile path))

/-- What is at a path that the arguments name, and at those of the descriptor files in it. -/
def lookAt (path : String) : IO (List (String × Except FileFault Entry)) := do
  let directory ← attempt (readDirectory path)
  match directory with
  | .ok (.directory entries) =>
      match (Entry.directory entries).descriptorPaths path "" with
      | .ok paths => pure ((path, directory) :: (← paths.mapM readFile))
      | .error _ => pure [(path, directory)]
  | .ok (.file _) => pure [← readFile path]
  | .error _ => pure [(path, directory)]

def writeTo (path content : String) : IO (Except FileFault Unit) := do
  try
    IO.FS.writeFile path content
    pure (.ok ())
  catch error =>
    pure (.error (faultOf error))

/-- Prints what a program ends with. -/
def finish (ending : Ending) : IO UInt32 := do
  IO.print ending.printed
  for message in ending.messages do
    IO.eprintln message
  pure ending.code

/-- Prints the product or writes it to the output file. -/
def deliver (settings : Settings) (product : Product) : IO UInt32 := do
  let messages := product.warnings.map Warning.message
  match settings.output with
  | none => finish ⟨0, product.content, messages⟩
  | some path =>
      match ← writeTo path product.content with
      | .ok _ => finish ⟨0, "", messages⟩
      | .error fault => finish (reportEnding product.warnings (fileReport "write" path fault))

def perform (options : Options) : IO UInt32 := do
  let seen ← options.settings.descriptors.mapM lookAt
  let find := fun path => (Entries.get? path seen.flatten).getD (.error .notFound)
  match options.produce find with
  | .ok product => deliver options.settings product
  | .error report => finish (reportEnding [] report)

def runProgram (arguments : List String) : IO UInt32 :=
  match parseArguments arguments with
  | .error error => finish error.ending
  | .ok .help => finish ⟨0, usage, []⟩
  | .ok .version => finish ⟨0, version, []⟩
  | .ok (.run options) => perform options

end ProtoSchema

def main (arguments : List String) : IO UInt32 :=
  ProtoSchema.runProgram arguments
