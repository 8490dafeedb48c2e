import ProtoSchema.Descriptor.Declaration
import ProtoSchema.Schema.Catalog

/-! References in a descriptor document. A relative reference is looked for in the scopes around
the message that makes it, innermost first, among the types of the document and of the catalog;
the kind of the type found decides whether a field tracks presence.
-/

namespace ProtoSchema.Descriptor

open Schema

inductive Kind where
  | message
  | enumeration
deriving DecidableEq, Repr

/-- The kind of a declared type. -/
def Declaration.kind : Declaration → Kind
  | .message _ => .message
  | .enumeration _ => .enumeration

/-- The kind of a type of the catalog. -/
def kindOf : Node → Kind
  | .message _ => .message
  | .enumeration _ => .enumeration

/-- The kind of the type that stands under a name: in the document, or else in the catalog. -/
def kind? (declared : List Declaration) (catalog : Catalog) (name : String) : Option Kind :=
  ((declared.find? fun declaration => declaration.name = name).map Declaration.kind)
    <|> (catalog.lookup name).map kindOf

/-- The name that a reference made in a scope stands for. A leading dot marks it as absolute; a
relative one that is found in no scope stays as it is written.
-/
def resolveReference (declared : List Declaration) (catalog : Catalog)
    (scope reference : String)
    : String :=
  match reference.toList with
  | '.' :: absolute => .ofList absolute
  | _ =>
      (((Name.scopes scope).map fun outer => Name.qualify outer reference).find? fun name =>
        (kind? declared catalog name).isSome).getD reference

/-- The type of a field made in a scope. -/
def resolveType (declared : List Declaration) (catalog : Catalog) (scope typeName : String)
    : FieldType :=
  match FieldType.ofName typeName with
  | .named reference => .named (resolveReference declared catalog scope reference)
  | .scalar kind => .scalar kind

/-- A single value of a message type tracks presence; a type that is not known counts as one. -/
def isSingularMessage (declared : List Declaration) (catalog : Catalog)
    (field : FieldDeclaration) (type : FieldType)
    : Bool :=
  field.rule ≠ .repeated && field.mapKey.isNone
    && match type with
      | .named reference => kind? declared catalog reference ≠ some .enumeration
      | .scalar _ => false

/-- A field tracks presence if its declaration says so, if it is a member of a group or if it has
a single value of a message type.
-/
def hasPresence (declared : List Declaration) (catalog : Catalog)
    (field : FieldDeclaration) (type : FieldType)
    : Bool :=
  field.rule = .optional || field.tracksPresence || field.oneof.isSome
    || isSingularMessage declared catalog field type

/-- The field that a declaration in a message gives. -/
def resolveField (declared : List Declaration) (catalog : Catalog) (message : String)
    (field : FieldDeclaration)
    : Except Malformation Field :=
  if field.rule = .repeated ∧ field.mapKey.isSome then
    .error (.repeatedMap message field.name)
  else
    let type := resolveType declared catalog message field.typeName
    .ok {
      name := field.name
      type
      repeated := field.rule = .repeated
      required := field.rule = .required || !hasPresence declared catalog field type
      oneof := field.oneof
      mapKey := field.mapKey
      comment := field.comment }

/-- The type that a declaration gives. -/
def resolve (declared : List Declaration) (catalog : Catalog)
    : Declaration → Except Malformation Node
  | .enumeration content => .ok (.enumeration content)
  | .message content => do
      let fields ← content.fields.mapM (resolveField declared catalog content.name)
      .ok (.message {
        name := content.name
        fields
        oneofs := content.oneofs
        comment := content.comment })

end ProtoSchema.Descriptor
