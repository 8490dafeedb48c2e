import ProtoSchema.OrderedMap

/-! Trees of files and directories, and the paths that lead through them. Paths are relative to
the root of a tree and cannot leave it.
-/

namespace ProtoSchema.CommandLine

/-- A file with its content, or a directory with its entries. -/
inductive Entry where
  | file (content : ByteArray)
  | directory (entries : List (String × Entry))
deriving Inhabited

/-- The reasons for which a file cannot be read or written. -/
inductive FileFault where
  | notFound
  | notDirectory
  | isDirectory
  | nameTooLong
  | nulInPath
  | invalidText
  | other (description : String)
deriving DecidableEq, Repr

def FileFault.message : FileFault → String
  | .notFound => "No such file or directory (os error 2)"
  | .notDirectory => "Not a directory (os error 20)"
  | .isDirectory => "Is a directory (os error 21)"
  | .nameTooLong => "File name too long (os error 36)"
  | .nulInPath => "file name contained an unexpected NUL byte"
  | .invalidText => "stream did not contain valid UTF-8"
  | .other description => description

/-- The content of a file as text. -/
def Entry.text (entry : Entry) : Except FileFault String :=
  match entry with
  | .directory _ => .error .isDirectory
  | .file content =>
      match String.fromUTF8? content with
      | some text => .ok text
      | none => .error .invalidText

/-- The segments of a path between its slashes. -/
def segments : List Char → List (List Char)
  | [] => [[]]
  | c :: rest =>
      if c = '/' then [] :: segments rest
      else
        match segments rest with
        | [] => [[c]]
        | segment :: following => (c :: segment) :: following

/-- A place in a tree: the names that lead to it, the directories around it and what is there,
innermost first.
-/
structure Place where
  names : List String
  around : List Entry
  here : Entry

/-- Follows a path segment by segment. An empty segment and a single dot stay in a directory and
two dots leave it.
-/
def Place.follow (place : Place) : List String → Except FileFault Place
  | [] => .ok place
  | segment :: rest =>
      match place.here with
      | .file _ => .error .notDirectory
      | .directory entries =>
          if segment = "" ∨ segment = "." then place.follow rest
          else if segment = ".." then
            match place.names, place.around with
            | _ :: names, outer :: around => Place.follow ⟨names, around, outer⟩ rest
            | _, _ => .error .notFound
          else if segment.utf8ByteSize > 255 then .error .nameTooLong
          else
            match Entries.get? segment entries with
            | some entry =>
                Place.follow ⟨segment :: place.names, place.here :: place.around, entry⟩ rest
            | none => .error .notFound

/-- A path can only be followed if it has fewer bytes than this allows. -/
def isTooLong (path : String) : Bool :=
  path.utf8ByteSize ≥ 4096

/-- The segments of a path that may be followed. -/
def checkPath (path : String) : Except FileFault (List String) :=
  if path.toList.contains '\x00' then .error .nulInPath
  else if path = "" ∨ path.toList.head? = some '/' then .error .notFound
  else if isTooLong path then .error .nameTooLong
  else .ok ((segments path.toList).map String.ofList)

/-- What a path leads to. -/
def Entry.find (root : Entry) (path : String) : Except FileFault Entry := do
  let place ← Place.follow ⟨[], [], root⟩ (← checkPath path)
  .ok place.here

/-- Puts an entry where the names lead, through directories that are made where they are missing.
-/
def Entry.put (root : Entry) (entry : Entry) : List String → Entry
  | [] => entry
  | name :: rest =>
      let entries :=
        match root with
        | .directory entries => entries
        | .file _ => []
      let inner := (Entries.get? name entries).getD (.directory [])
      .directory (Entries.insert name (inner.put entry rest) entries)

/-- Writes a file, in place of one that is there. Its directory must exist. A path that ends in a
slash or in dots can only mean a directory.
-/
def Entry.write (root : Entry) (path : String) (content : ByteArray) : Except FileFault Entry := do
  let reversed := (← checkPath path).reverse
  let ending := reversed.takeWhile fun segment => segment = ""
  match reversed.dropWhile fun segment => segment = "" with
  | [] => .error .notFound
  | name :: outer =>
      let place ← Place.follow ⟨[], [], root⟩ outer.reverse
      match place.here with
      | .file _ => .error .notDirectory
      | .directory entries =>
          if name = "." ∨ name = ".." ∨ ending ≠ [] then .error .isDirectory
          else if name.utf8ByteSize > 255 then .error .nameTooLong
          else
            match Entries.get? name entries with
            | some (.directory _) => .error .isDirectory
            | _ => .ok (root.put (.file content) (name :: place.names).reverse)

/-- The name of a file has the extension `json`, with something before it. -/
def isDescriptorName (name : String) : Bool :=
  name.toList.length > 5 && ".json".toList.isSuffixOf name.toList

def joinPath (path name : String) : String :=
  if path.toList.getLast? = some '/' then path ++ name else path ++ "/" ++ name

/-- A directory that a search came to and could not read. -/
structure SearchFault where
  path : String
  fault : FileFault
deriving DecidableEq, Repr

def SearchFault.message (failure : SearchFault) : String :=
  s!"IO error for operation on {failure.path}: {failure.fault.message}"

/-- Joins what the entries of a directory give, in the order of their names. The first fault in
that order ends the search.
-/
def inNameOrder (parts : List (String × Except SearchFault (List String)))
    : Except SearchFault (List String) :=
  ((parts.mergeSort fun left right => left.1 ≤ right.1).mapM Prod.snd).map List.flatten

mutual

/-- The paths of the descriptor files in an entry that stands at a path. A directory's files stand
in the order of their names, with those of a subdirectory in its place.
-/
def Entry.descriptorPaths (path name : String) : Entry → Except SearchFault (List String)
  | .file _ => .ok (if isDescriptorName name then [path] else [])
  | .directory entries =>
      if isTooLong path then .error ⟨path, .nameTooLong⟩
      else inNameOrder (entryDescriptorPaths path entries)

/-- The paths of the descriptor files in each entry of the directory at a path. -/
def entryDescriptorPaths (path : String) : List (String × Entry)
    → List (String × Except SearchFault (List String))
  | [] => []
  | (name, entry) :: rest =>
      (name, entry.descriptorPaths (joinPath path name) name) :: entryDescriptorPaths path rest

end

end ProtoSchema.CommandLine
