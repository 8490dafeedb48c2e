import ProtoSchema.OrderedMap
import ProtoSchema.Schema.Enumeration
import ProtoSchema.Schema.Message

/-! The catalog of a schema holds its messages and enumerations under their qualified names, in
declaration order. Looking a name up ignores its leading dots; inserting one does not.
-/

namespace ProtoSchema.Schema

inductive Node where
  | message (content : Message)
  | enumeration (content : Enumeration)
deriving DecidableEq

namespace Node

def name : Node → String
  | .message content => content.name
  | .enumeration content => content.name

def simpleName (node : Node) : String :=
  Name.simple node.name

def comment : Node → Option String
  | .message content => content.comment
  | .enumeration content => content.comment

def isEnumeration : Node → Bool
  | .message _ => false
  | .enumeration _ => true

def withName (name : String) : Node → Node
  | .message content => .message { content with name }
  | .enumeration content => .enumeration { content with name }

/-- A message as an input message; an enumeration serves input and output alike. -/
def markInput : Node → Node
  | .message content => .message content.asInput
  | .enumeration content => .enumeration content

end Node

/-- The types of a schema, each under a name of its own. -/
structure Catalog where
  types : OrderedMap Node := .empty
deriving DecidableEq

/-- The failure to insert a type under a name that is taken. -/
structure DuplicateName where
  name : String
deriving DecidableEq, Repr

def DuplicateName.message (failure : DuplicateName) : String :=
  "duplicate type name: " ++ failure.name

namespace Catalog

def nodes (catalog : Catalog) : List Node :=
  catalog.types.values

def names (catalog : Catalog) : List String :=
  catalog.types.keys

def size (catalog : Catalog) : Nat :=
  catalog.types.size

/-- Adds a type under its own name, which must be free. -/
def insert (catalog : Catalog) (node : Node) : Except DuplicateName Catalog :=
  match catalog.types.insertNew? node.name node with
  | some types => .ok { types }
  | none => .error ⟨node.name⟩

/-- The type that stands under a name, which may be written with leading dots. -/
def lookup (catalog : Catalog) (name : String) : Option Node :=
  catalog.types.get? (Name.dropLeadingDots name)

def contains (catalog : Catalog) (name : String) : Bool :=
  (catalog.lookup name).isSome

/-- Changes the type that stands under a name, if there is one. -/
def modify (catalog : Catalog) (name : String) (change : Node → Node) : Catalog where
  types := catalog.types.modify (Name.dropLeadingDots name) change

end Catalog

/-- What the conversion of some listed types may refer to: the listed types themselves and the
types of the catalog.
-/
structure Scope where
  catalog : Catalog
  listed : List Node

namespace Scope

/-- The type that a reference denotes: a listed type of this qualified name, else a type of the
catalog, else a listed type of this simple name.
-/
def find? (scope : Scope) (reference : String) : Option Node :=
  let name := Name.dropLeadingDots reference
  (scope.listed.find? fun node => node.name = name)
    <|> scope.catalog.lookup name
    <|> scope.listed.find? fun node => node.simpleName = name

/-- Leading dots of a reference do not matter. -/
@[simp] theorem find?_dropLeadingDots (scope : Scope) (reference : String)
    : scope.find? (Name.dropLeadingDots reference) = scope.find? reference := by
  simp only [find?, Name.dropLeadingDots_dropLeadingDots]

/-- What a reference denotes is listed, or stands under its name in the catalog while no listed type
has that name; by cases on where it was found.
-/
theorem listed_or_stored {scope : Scope} {reference : String} {node : Node}
    (found : scope.find? reference = some node)
    : node ∈ scope.listed
      ∨ scope.catalog.types.get? (Name.dropLeadingDots reference) = some node
        ∧ ∀ other ∈ scope.listed, other.name ≠ Name.dropLeadingDots reference := by
  simp only [find?, Option.orElse_eq_orElse, Option.orElse_eq_or, Option.or_eq_some_iff,
    List.find?_eq_none, decide_eq_true_eq, Catalog.lookup,
    Name.dropLeadingDots_dropLeadingDots] at found
  rcases found with listed | ⟨unlisted, known | ⟨_, simple⟩⟩
  · exact .inl (List.mem_of_find?_eq_some listed)
  · exact .inr ⟨known, unlisted⟩
  · exact .inl (List.mem_of_find?_eq_some simple)

theorem mem_of_find?_eq_some {scope : Scope} {reference : String} {node : Node}
    (found : scope.find? reference = some node)
    : node ∈ scope.listed ∨ node ∈ scope.catalog.nodes :=
  (listed_or_stored found).imp_right fun stored => OrderedMap.mem_values_iff.mpr ⟨_, stored.1⟩

/-- The names that a reference could have meant, listed types first. -/
def knownNames (scope : Scope) : List String :=
  scope.listed.map Node.name ++ scope.catalog.names

end Scope

end ProtoSchema.Schema
