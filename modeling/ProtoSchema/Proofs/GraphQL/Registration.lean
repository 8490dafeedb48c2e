import Mathlib.Data.List.Forall2
import Mathlib.Logic.Relation
import ProtoSchema.GraphQL.Pass
import ProtoSchema.Proofs.Execution
import ProtoSchema.Proofs.Schema.Slots

/-! What a conversion registers, and on whose behalf. A registration enters one type under a new
name; the type is made from an origin that the request at hand allows. All invariants of the
conversion are derived from this one relation.
-/

namespace ProtoSchema.GraphQL

open Schema

/-- What a registered type is made from: a type of the schema, which may be the entry of a map,
or a group of a message.
-/
inductive Origin where
  | node (node : Node)
  | group (message : Message) (group : String)
deriving DecidableEq

/-- The name under which the type is registered. -/
def Origin.name : Origin → String
  | .node content => content.name
  | .group message title => groupName message title

/-- The entries of a map are registered under the name of their message. -/
theorem Origin.name_entry (message : Message) (field : Field) (key : Scalar)
    : (Origin.node (.message (MapEntry.message message field key))).name
      = MapEntry.name message field key := by
  simp only [Origin.name, Node.name, MapEntry.message]

/-- What the conversion is asked for: the listed types, the type of a reference, the types of the
fields of a message apart from its groups, or all fields of a message.
-/
inductive Request where
  | listed
  | reference (reference : String)
  | values (message : Message)
  | fields (message : Message)

/-- The message whose fields the request is about. -/
def Request.message? : Request → Option Message
  | .listed => none
  | .reference _ => none
  | .values message => some message
  | .fields message => some message

/-- Serving the request looks a reference up. -/
inductive Request.Refers : Request → String → Prop
  | reference (reference : String) : Refers (.reference reference) reference
  | value {message : Message} {field : Field} {reference : String} (shown : message.Shows field)
    (keyless : field.mapKey = none) (type : field.type = .named reference)
    : Refers (.values message) reference
  | shown {message : Message} {reference : String} (refers : Refers (.values message) reference)
    : Refers (.fields message) reference

/-- Serving the request may register a type for the origin. -/
inductive Request.Allows (scope : Scope) : Request → Origin → Prop
  | listed {node : Node} (member : node ∈ scope.listed) : Allows scope .listed (.node node)
  | found {request : Request} {reference : String} {node : Node}
    (refers : request.Refers reference) (found : scope.find? reference = some node)
    : Allows scope request (.node node)
  | entry {message : Message} {field : Field} {key : Scalar} (shown : message.Shows field)
    (keyed : field.mapKey = some key)
    : Allows scope (.values message) (.node (.message (MapEntry.message message field key)))
  | value {message : Message} {origin : Origin} (allowed : Allows scope (.values message) origin)
    : Allows scope (.fields message) origin
  | group {message : Message} {group : String} (present : message.HasGroup group)
    : Allows scope (.fields message) (.group message group)

-----------------------------------------------------------------------------------------
-- The types that references, fields and groups have at some point of the conversion
-----------------------------------------------------------------------------------------

/-- A reference has the type that is registered under its own name or under the name of what it
denotes.
-/
inductive Progress.Resolves (progress : Progress) (scope : Scope) (reference : String)
    : TypeRef → Prop
  | registered {type : TypeRef}
    (found : progress.reference? (Name.dropLeadingDots reference) = some type)
    : Resolves progress scope reference type
  | declared {node : Node} {type : TypeRef} (denotes : scope.find? reference = some node)
    (found : progress.reference? node.name = some type)
    : Resolves progress scope reference type

/-- A field has a base type: a built-in one, that of its map entries or that of its reference. -/
inductive Progress.TypesBase (progress : Progress) (int64 : Integer64) (scope : Scope)
    (message : Message) (field : Field)
    : TypeRef → Prop
  | scalar {kind : Scalar} (keyless : field.mapKey = none) (type : field.type = .scalar kind)
    : TypesBase progress int64 scope message field (.named (kind.graphQL int64).name)
  | entry {key : Scalar} {type : TypeRef} (keyed : field.mapKey = some key)
    (found : progress.reference? (MapEntry.name message field key) = some type)
    : TypesBase progress int64 scope message field type
  | reference {reference : String} {type : TypeRef} (keyless : field.mapKey = none)
    (named : field.type = .named reference)
    (resolves : progress.Resolves scope reference type)
    : TypesBase progress int64 scope message field type

/-- A field has a type: its base type with the list and the exclusion of null that it asks for. -/
inductive Progress.TypesField (progress : Progress) (int64 : Integer64) (scope : Scope)
    (message : Message) (field : Field)
    : TypeRef → Prop
  | wrapped {base : TypeRef} (based : progress.TypesBase int64 scope message field base)
    : TypesField progress int64 scope message field (wrapType field base)

/-- A member of a group has the type of the field that it names. -/
def Progress.TypesMember (progress : Progress) (int64 : Integer64) (scope : Scope)
    (message : Message) (member : String) (type : TypeRef)
    : Prop :=
  ∃ field, message.field? member = some field ∧ progress.TypesField int64 scope message field type

/-- A property of a message has a field: a group has the union that is registered for it. -/
inductive Progress.TypesSlot (progress : Progress) (int64 : Integer64) (scope : Scope)
    (message : Message)
    : Message.Slot → FieldDefinition → Prop
  | single {field : Field} {type : TypeRef}
    (typed : progress.TypesField int64 scope message field type)
    : TypesSlot progress int64 scope message (.single field)
        { name := field.name, type, description := field.comment }
  | group {group : String} {type : TypeRef}
    (found : progress.reference? (groupName message group) = some type)
    : TypesSlot progress int64 scope message (.group group)
        { name := group, type, description := (message.oneof? group).bind OneOf.comment }

/-- A type is made from its origin; the members of a union have types already. -/
inductive Progress.Makes (progress : Progress) (int64 : Integer64) (scope : Scope)
    : Origin → NamedType → Prop
  | enumeration (content : Enumeration)
    : Makes progress int64 scope (.node (.enumeration content)) (.enumeration (enumType content))
  | message (content : Message)
    : Makes progress int64 scope (.node (.message content)) (objectType content)
  | group {message : Message} {group : String} {members : List TypeRef}
    (typed
      : List.Forall₂ (progress.TypesMember int64 scope message)
          (message.memberNames group) members)
    : Makes progress int64 scope (.group message group)
        (.union {
          name := typeName (groupName message group)
          description := (message.oneof? group).bind OneOf.comment
          members })

/-- Every type is named after its origin, by cases. -/
theorem Progress.Makes.name {progress : Progress} {int64 : Integer64} {scope : Scope}
    {origin : Origin} {type : NamedType} (made : progress.Makes int64 scope origin type)
    : type.name = typeName origin.name := by
  cases made with
  | enumeration content => rfl
  | message content =>
      unfold objectType
      split <;> rfl
  | group typed => rfl

-----------------------------------------------------------------------------------------
-- Registrations
-----------------------------------------------------------------------------------------

/-- The progress with a type entered for an origin; the fields of a message are deferred. -/
def Progress.enter (progress : Progress) (origin : Origin) (type : NamedType) : Progress where
  registry := progress.registry.insert origin.name type
  claimed := progress.claimed.insert type.name origin.name
  deferred :=
    match origin with
    | .node (.message content) => progress.deferred.insert content.name content
    | _ => progress.deferred

/-- One registration on behalf of a request: the name of the origin is new, and no other name has
claimed the name of the type.
-/
inductive Registration (int64 : Integer64) (scope : Scope) (request : Request)
    (progress : Progress)
    : Progress → Prop
  | enter {origin : Origin} {type : NamedType} (allowed : request.Allows scope origin)
    (made : progress.Makes int64 scope origin type)
    (fresh : progress.registry.get? origin.name = none)
    (free : ∀ owner, progress.claimed.get? type.name = some owner → owner = origin.name)
    : Registration int64 scope request progress (progress.enter origin type)

/-- Any number of registrations on behalf of a request. -/
abbrev Registers (int64 : Integer64) (scope : Scope) (request : Request)
    : Progress → Progress → Prop :=
  Relation.ReflTransGen (Registration int64 scope request)

/-- Why a request cannot be served. -/
inductive Blocked (scope : Scope) (request : Request) (progress : Progress)
    : ConversionError → Prop
  | unknownType {reference : String} (refers : request.Refers reference)
    (unregistered : progress.registry.get? (Name.dropLeadingDots reference) = none)
    (undeclared : scope.find? reference = none)
    : Blocked scope request progress
        (.typeNotFound (Name.dropLeadingDots reference)
          (Suggestion.hint? (Name.dropLeadingDots reference) scope.knownNames))
  | unknownMember {message : Message} {group member : String}
    (owner : request.message? = some message) (present : message.HasGroup group)
    (named : member ∈ message.memberNames group)
    (absent : message.field? member = none)
    : Blocked scope request progress (.malformed (.unknownMember message.name group member))
  | sharedTypeName {origin : Origin} {owner : String} (allowed : request.Allows scope origin)
    (claimed : progress.claimed.get? (typeName origin.name) = some owner)
    (rival : owner ≠ origin.name)
    : Blocked scope request progress
        (.malformed (.sharedTypeName owner origin.name (typeName origin.name)))
  | takenByMember {message : Message} {group : String} {node : Node}
    (owner : request.message? = some message) (present : message.HasGroup group)
    (allowed : (Request.values message).Allows scope (.node node))
    (taken : node.name = groupName message group)
    : Blocked scope request progress (.malformed (.alreadyRegistered (groupName message group)))

-----------------------------------------------------------------------------------------
-- Registrations keep what is there
-----------------------------------------------------------------------------------------

variable {int64 : Integer64} {scope : Scope} {request : Request} {before after : Progress}

theorem Progress.registry_enter (progress : Progress) (origin : Origin) (type : NamedType)
    (name : String)
    : (progress.enter origin type).registry.get? name
      = if name = origin.name then some type else progress.registry.get? name :=
  OrderedMap.get?_insert _ _ _ _

theorem Registration.retains (step : Registration int64 scope request before after)
    {name : String} {type : NamedType} (found : before.registry.get? name = some type)
    : after.registry.get? name = some type := by
  cases step with
  | enter allowed made fresh free =>
      rw [Progress.registry_enter, if_neg]
      · exact found
      · rintro rfl
        simp [fresh] at found

/-- Registrations keep the registered types, by induction on their number. -/
theorem Registers.retains (steps : Registers int64 scope request before after)
    {name : String} {type : NamedType} (found : before.registry.get? name = some type)
    : after.registry.get? name = some type := by
  induction steps with
  | refl => exact found
  | tail _ step ih => exact step.retains ih

/-- References keep their types from one progress to another. -/
def Progress.Keeps (before after : Progress) : Prop :=
  ∀ name type, before.reference? name = some type → after.reference? name = some type

/-- A reference has a type exactly when some type is registered for it. -/
theorem Progress.reference?_eq_some {progress : Progress} {name : String} {reference : TypeRef}
    : progress.reference? name = some reference
      ↔ ∃ type, progress.registry.get? name = some type ∧ reference = .named type.name := by
  rw [Progress.reference?, Option.map_eq_some_iff]
  simp only [eq_comm]

theorem Registers.keeps (steps : Registers int64 scope request before after)
    : before.Keeps after := by
  intro name reference known
  obtain ⟨type, found, rfl⟩ := Progress.reference?_eq_some.mp known
  exact Progress.reference?_eq_some.mpr ⟨type, steps.retains found, rfl⟩

theorem Progress.Keeps.trans {before middle after : Progress} (first : before.Keeps middle)
    (second : middle.Keeps after)
    : before.Keeps after :=
  fun name type known => second name type (first name type known)

section Keeping

variable {message : Message}

theorem Progress.Resolves.keep {reference : String} {type : TypeRef}
    (resolves : before.Resolves scope reference type) (keeps : before.Keeps after)
    : after.Resolves scope reference type := by
  cases resolves with
  | registered found => exact .registered (keeps _ _ found)
  | declared denotes found => exact .declared denotes (keeps _ _ found)

theorem Progress.TypesBase.keep {field : Field} {type : TypeRef}
    (based : before.TypesBase int64 scope message field type) (keeps : before.Keeps after)
    : after.TypesBase int64 scope message field type := by
  cases based with
  | scalar keyless kind => exact .scalar keyless kind
  | entry keyed found => exact .entry keyed (keeps _ _ found)
  | reference keyless named resolves => exact .reference keyless named (resolves.keep keeps)

theorem Progress.TypesField.keep {field : Field} {type : TypeRef}
    (typed : before.TypesField int64 scope message field type) (keeps : before.Keeps after)
    : after.TypesField int64 scope message field type := by
  cases typed with
  | wrapped based => exact .wrapped (based.keep keeps)

theorem Progress.TypesMember.keep {member : String} {type : TypeRef}
    (typed : before.TypesMember int64 scope message member type) (keeps : before.Keeps after)
    : after.TypesMember int64 scope message member type := by
  rcases typed with ⟨field, found, typed⟩
  exact ⟨field, found, typed.keep keeps⟩

theorem Progress.TypesSlot.keep {slot : Message.Slot} {field : FieldDefinition}
    (typed : before.TypesSlot int64 scope message slot field) (keeps : before.Keeps after)
    : after.TypesSlot int64 scope message slot field := by
  cases typed with
  | single typed => exact .single (typed.keep keeps)
  | group found => exact .group (keeps _ _ found)

theorem Progress.Makes.keep {origin : Origin} {type : NamedType}
    (made : before.Makes int64 scope origin type) (keeps : before.Keeps after)
    : after.Makes int64 scope origin type := by
  cases made with
  | enumeration content => exact .enumeration content
  | message content => exact .message content
  | group typed => exact .group (typed.imp fun _ _ typed => typed.keep keeps)

end Keeping

/-- What is newly registered is made from an origin that the request allows, by induction on the
number of registrations.
-/
theorem Registers.made_of_new (steps : Registers int64 scope request before after)
    {name : String} {type : NamedType} (found : after.registry.get? name = some type)
    : before.registry.get? name = some type
      ∨ before.registry.get? name = none
        ∧ ∃ origin,
            request.Allows scope origin
            ∧ origin.name = name
            ∧ after.Makes int64 scope origin type := by
  induction steps with
  | refl => exact .inl found
  | tail earlier step ih =>
      have keeps := Registers.keeps (.single step)
      cases step with
      | @enter origin entered allowed made fresh free =>
          rw [Progress.registry_enter] at found
          split at found
          · next same =>
              cases found
              refine .inr ⟨?_, origin, allowed, same.symm, made.keep keeps⟩
              -- A name that was registered at the start is kept, so it cannot be entered again.
              cases old : before.registry.get? name with
              | none => rfl
              | some type =>
                  rw [same] at old
                  rw [Registers.retains earlier old] at fresh
                  simp at fresh
          · rcases ih found with old | ⟨absent, other, allowed, named, made⟩
            · exact .inl old
            · exact .inr ⟨absent, other, allowed, named, made.keep keeps⟩

/-- The types of values are asked for on the way to all fields of a message. -/
theorem Registers.values_fields {message : Message}
    (steps : Registers int64 scope (.values message) before after)
    : Registers int64 scope (.fields message) before after := by
  refine Relation.ReflTransGen.mono (fun _ _ step => ?_) _ _ steps
  cases step with
  | enter allowed made fresh free => exact .enter (.value allowed) made fresh free

end ProtoSchema.GraphQL
