import ProtoSchema.GraphQL.Pass
import ProtoSchema.TypeScript.Pass

/-! A conversion of a catalog: which types are converted, which messages become input objects and
what stands for 64-bit integers. Both targets start from the same prepared types.
-/

namespace ProtoSchema

open Schema

/-- What to convert and how. With no types selected, all are converted. -/
structure Conversion where
  selected : List String := []
  inputs : List String := []
  int64 : Integer64 := .text
deriving DecidableEq, Repr

namespace Conversion

def select (conversion : Conversion) (name : String) : Conversion :=
  { conversion with selected := conversion.selected ++ [name] }

def input (conversion : Conversion) (name : String) : Conversion :=
  { conversion with inputs := conversion.inputs ++ [name] }

/-- The error for a name that is not in the catalog. -/
def unknownName (catalog : Catalog) (name : String) : ConversionError :=
  .typeNotFound (Name.dropLeadingDots name) (Suggestion.hint? name catalog.names)

/-- Makes the message of this name an input. -/
def markInput (catalog : Catalog) (name : String) : Except ConversionError Catalog :=
  if catalog.contains name then .ok (catalog.modify name Node.markInput)
  else .error (unknownName catalog name)

def find (catalog : Catalog) (name : String) : Except ConversionError Node :=
  match catalog.lookup name with
  | some node => .ok node
  | none => .error (unknownName catalog name)

/-- The catalog with its inputs marked, and the types to convert from it. -/
def prepare (conversion : Conversion) (catalog : Catalog) : Except ConversionError Scope := do
  let catalog ← conversion.inputs.foldlM markInput catalog
  let listed ←
    if conversion.selected.isEmpty then .ok catalog.nodes
    else conversion.selected.mapM (find catalog)
  .ok { catalog, listed }

/-- The GraphQL definitions that the conversion gives. -/
def graphQL (conversion : Conversion) (catalog : Catalog) : Except Report (List String) := do
  let scope ← (conversion.prepare catalog).mapError (.ofConversion [])
  (GraphQL.convert conversion.int64 scope).mapError (.ofConversion ["convert to GraphQL"])

/-- The TypeScript declarations that the conversion gives. -/
def typeScript (conversion : Conversion) (catalog : Catalog) : Except Report TypeScript.Output := do
  let scope ← (conversion.prepare catalog).mapError (.ofConversion [])
  (TypeScript.convert TypeScript.jsDoc conversion.int64 scope).mapError
    (.ofConversion ["convert to TypeScript"])

end Conversion

end ProtoSchema
