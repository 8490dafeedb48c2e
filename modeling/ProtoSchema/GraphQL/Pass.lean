import ProtoSchema.Diagnostic
import ProtoSchema.GraphQL.Printer
import ProtoSchema.Registry
import ProtoSchema.Schema.Catalog
import ProtoSchema.Schema.MapEntry
import ProtoSchema.Schema.Suggestion

/-! The conversion to GraphQL gives a named type for each type that the listed ones reach. A
message is registered before its fields are converted, which are deferred until they are needed:
whatever refers to it in between finds it registered, so that cycles of references end. Progress
that was made before an error is kept. The parts of the conversion run in any monad that offers
what they need; the plain one is `Pass`.
-/

namespace ProtoSchema.GraphQL

open Schema

/-- The types converted so far, the messages among them whose fields are still deferred, and the
qualified name that owns each name of a type.
-/
structure Progress where
  registry : Registry NamedType := .empty
  deferred : OrderedMap Message := .empty
  claimed : OrderedMap String := .empty
deriving DecidableEq

/-- A computation that advances the conversion and may fail. -/
abbrev Pass :=
  ExceptT ConversionError (StateM Progress)

/-- What a conversion runs in: it advances the progress, may fail, and sees whenever the fields of a
message are converted.
-/
class MonadConversion (m : Type → Type) extends Monad m, MonadStateOf Progress m,
    MonadExceptOf ConversionError m where
  converting {α : Type} (message : Message) (conversion : m α) : m α

@[default_instance]
instance : MonadConversion Pass where
  converting _ conversion := conversion

/-- Registers a type under a qualified name, which must own the name of the type. -/
def Progress.register (progress : Progress) (qualified : String) (type : NamedType)
    : Except ConversionError Progress :=
  match (progress.claimed.get? type.name).filter fun owner => owner ≠ qualified with
  | some owner => .error (.malformed (.sharedTypeName owner qualified type.name))
  | none =>
      match progress.registry.register qualified type with
      | .ok registry =>
          .ok { progress with
            registry, claimed := progress.claimed.insert type.name qualified }
      | .error failure => .error (.malformed (.alreadyRegistered failure.name))

variable {m : Type → Type} [MonadConversion m]

def register (qualified : String) (type : NamedType) : m TypeRef := do
  match (← get).register qualified type with
  | .ok progress =>
      set progress
      pure (.named type.name)
  | .error error => throw error

/-- The reference to the type that is registered under a qualified name. -/
def Progress.reference? (progress : Progress) (qualified : String) : Option TypeRef :=
  (progress.registry.get? qualified).map fun type => .named type.name

def enumType (enumeration : Enumeration) : EnumType where
  name := typeName enumeration.name
  description := enumeration.comment
  values :=
    enumeration.values.entries.map fun entry =>
      { name := entry.1, number := entry.2, description := enumeration.comments.get? entry.1 }

/-- The GraphQL type of a message, with deferred fields. -/
def objectType (message : Message) : NamedType :=
  let type : ObjectType := { name := typeName message.name, description := message.comment }
  if message.isInput then .inputObject type else .object type

/-- Registers a type of the schema under its own name unless one is registered there already. The
fields of a message are deferred.
-/
def resolveNode (node : Node) : m TypeRef := do
  match (← get).reference? node.name with
  | some reference => pure reference
  | none =>
      match node with
      | .enumeration content => register content.name (.enumeration (enumType content))
      | .message content =>
          let reference ← register content.name (objectType content)
          modify fun progress =>
            { progress with deferred := progress.deferred.insert content.name content }
          pure reference

/-- Resolves a reference to a type, which may be written with leading dots. -/
def resolve (scope : Scope) (reference : String) : m TypeRef := do
  let qualified := Name.dropLeadingDots reference
  match (← get).reference? qualified with
  | some type => pure type
  | none =>
      match scope.find? qualified with
      | some node => resolveNode node
      | none =>
          throw (.typeNotFound qualified (Suggestion.hint? qualified scope.knownNames))

/-- The type of a field before lists and exclusions of null. A map has the type of its entries,
whose own fields are deferred like those of any message.
-/
def baseType (int64 : Integer64) (scope : Scope) (message : Message) (field : Field)
    : m TypeRef :=
  match field.mapKey, field.type with
  | some key, _ => resolveNode (.message (MapEntry.message message field key))
  | none, .scalar kind => pure (.named (kind.graphQL int64).name)
  | none, .named reference => resolve scope reference

/-- Wraps the base type of a field into a list if it is repeated and without null if it is
required.
-/
def wrapType (field : Field) (base : TypeRef) : TypeRef :=
  let type := if field.repeated then base.asList else base
  if field.required then type.asNonNull else type

def fieldType (int64 : Integer64) (scope : Scope) (message : Message) (field : Field)
    : m TypeRef := do
  pure (wrapType field (← baseType int64 scope message field))

def groupName (message : Message) (group : String) : String :=
  message.name ++ "." ++ group

def memberType (int64 : Integer64) (scope : Scope) (message : Message) (group member : String)
    : m TypeRef :=
  match message.field? member with
  | some field => fieldType int64 scope message field
  | none => throw (.malformed (.unknownMember message.name group member))

/-- The union for a group, registered after the types of its members. -/
def groupType (int64 : Integer64) (scope : Scope) (message : Message) (group : String)
    : m TypeRef := do
  let qualified := groupName message group
  match (← get).reference? qualified with
  | some reference => pure reference
  | none =>
      let members ←
        (message.memberNames group).mapM (memberType int64 scope message group)
      register qualified (.union {
        name := typeName qualified
        description := (message.oneof? group).bind OneOf.comment
        members })

def slotField (int64 : Integer64) (scope : Scope) (message : Message)
    : Message.Slot → m FieldDefinition
  | .single field => do
      pure {
        name := field.name
        type := ← fieldType int64 scope message field
        description := field.comment }
  | .group group => do
      pure {
        name := group
        type := ← groupType int64 scope message group
        description := (message.oneof? group).bind OneOf.comment }

/-- The fields of a message, each group as a single one. -/
def messageFields (int64 : Integer64) (scope : Scope) (message : Message)
    : m (List FieldDefinition) :=
  MonadConversion.converting message (message.slots.mapM (slotField int64 scope message))

/-- Converts the fields of a message if they are deferred. -/
def force (int64 : Integer64) (scope : Scope) (qualified : String) : m Unit := do
  match (← get).deferred.get? qualified with
  | none => pure ()
  | some message =>
      modify fun progress => { progress with deferred := progress.deferred.erase qualified }
      let fields ← messageFields int64 scope message
      modify fun progress =>
        { progress with registry := progress.registry.modify qualified (·.withFields fields) }

/-- Converts deferred fields, first come first served, for at most `count` messages. -/
def forceFirst (int64 : Integer64) (scope : Scope) : Nat → m Unit
  | 0 => pure ()
  | count + 1 => do
      match (← get).deferred.keys.head? with
      | none => pure ()
      | some qualified =>
          force int64 scope qualified
          forceFirst int64 scope count

def messagesOf (nodes : List Node) : List Message :=
  nodes.filterMap fun node =>
    match node with
    | .message content => some content
    | .enumeration _ => none

/-- At least as many messages as are still to be converted: those that are deferred, those of the
schema, and the entries of the maps of all of these.
-/
def workBound (scope : Scope) (progress : Progress) : Nat :=
  let messages :=
    progress.deferred.values ++ messagesOf scope.listed ++ messagesOf scope.catalog.nodes
  messages.length + (messages.flatMap Message.fields).countP Field.isMap

/-- Converts deferred fields until none are left. -/
def materialize (int64 : Integer64) (scope : Scope) : m Unit := do
  forceFirst int64 scope (workBound scope (← get))

/-- Registers the listed types. -/
def build (scope : Scope) : m Unit :=
  scope.listed.forM fun node => discard (resolveNode node)

/-- The fields of a registered message, converted if they were deferred. -/
def fields (int64 : Integer64) (scope : Scope) (reference : String)
    : m (List FieldDefinition) := do
  let qualified := Name.dropLeadingDots reference
  force int64 scope qualified
  match ((← get).registry.get? qualified).bind NamedType.fields? with
  | some fields => pure fields
  | none => throw (.malformed (.notRegisteredMessage qualified))

/-- The type that is registered under a name, which may be written with leading dots. -/
def Progress.type? (progress : Progress) (reference : String) : Option NamedType :=
  progress.registry.get? (Name.dropLeadingDots reference)

/-- The definitions of the registered types in the order of their names. -/
def Progress.definitions (progress : Progress) : List String :=
  (progress.registry.values.mergeSort fun left right => left.name ≤ right.name).map
    NamedType.print

/-- The definitions of all registered types, with no fields deferred. -/
def schemas (int64 : Integer64) (scope : Scope) : m (List String) := do
  materialize int64 scope
  pure (← get).definitions

/-- The definitions of the listed types and of all that they reach, in the order of their names.
-/
def convert (int64 : Integer64) (scope : Scope) : Except ConversionError (List String) :=
  ((do build scope; schemas int64 scope : Pass (List String)).run.run {}).1

end ProtoSchema.GraphQL
