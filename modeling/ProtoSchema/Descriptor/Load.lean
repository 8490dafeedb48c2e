import ProtoSchema.Descriptor.Reference
import ProtoSchema.Json.Parser

/-! Loading adds the types of a descriptor document to a catalog. All names are checked before
any type is inserted; every function gives the catalog that is left, also after a failure.
-/

namespace ProtoSchema.Descriptor

open Schema

/-- The first name that the catalog knows already or that an earlier type of the list has. -/
def firstDuplicate? (catalog : Catalog) (seen : List String) : List Node → Option String
  | [] => none
  | node :: rest =>
      if catalog.contains node.name || seen.contains node.name then some node.name
      else firstDuplicate? catalog (node.name :: seen) rest

/-- The types of a document, resolved against its own declarations and the catalog. -/
def nodesOf (catalog : Catalog) (document : Json) : Except Malformation (List Node) := do
  let declared ← declarations document
  let nodes ← declared.mapM (resolve declared catalog)
  match firstDuplicate? catalog [] nodes with
  | some name => .error (.duplicateName name)
  | none => .ok nodes

/-- Inserts types one after the other, up to the first whose name is taken. -/
def insertAll (catalog : Catalog) : List Node → Except Malformation Unit × Catalog
  | [] => (.ok (), catalog)
  | node :: rest =>
      match catalog.insert node with
      | .ok extended => insertAll extended rest
      | .error duplicate => (.error (.duplicateName duplicate.name), catalog)

/-- Loads a document. -/
def loadDocument (catalog : Catalog) (document : Json) : Except Malformation Unit × Catalog :=
  match nodesOf catalog document with
  | .ok nodes => insertAll catalog nodes
  | .error malformation => (.error malformation, catalog)

/-- The diagnostic for text that is no JSON. -/
def invalidSource (sourceName : String) (source : List UInt8) (error : Json.SyntaxError)
    : SourceDiagnostic where
  sourceName := sourceName
  offset := error.offset source
  length := error.length source
  message := "invalid descriptor JSON: " ++ error.message
  label := some "here"
  help := none

/-- Loads the document that a text writes; `sourceName` says where the text comes from. -/
def loadText (catalog : Catalog) (sourceName text : String) : Except Report Unit × Catalog :=
  let source := text.toUTF8.toList
  match Json.parse source with
  | .error error => (.error ⟨[], .invalidSource (invalidSource sourceName source error)⟩, catalog)
  | .ok document =>
      let (result, loaded) := loadDocument catalog document
      (result.mapError fun malformation =>
        .ofConversion ["load descriptor " ++ sourceName] (.malformed malformation), loaded)

def catalogOfText (sourceName text : String) : Except Report Catalog :=
  let (result, catalog) := loadText {} sourceName text
  result.map fun _ => catalog

end ProtoSchema.Descriptor
