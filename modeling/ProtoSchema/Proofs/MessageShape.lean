import ProtoSchema.Proofs.GraphQL.Shapes
import ProtoSchema.Proofs.GraphQL.Sources
import ProtoSchema.Proofs.Lockstep
import ProtoSchema.Proofs.TypeScript.Properties

/-! The shape of a message in both targets. The conversions of one message, from whatever has been
converted before, give it properties of the same names in the same order. Lists, what may be missing
and the alternatives for a group correspond, as long as both find the same members of the group.
-/

namespace ProtoSchema

open Schema
open Execution

variable {int64 other : Integer64} {scope : Scope} {message : Message} {field : Field}
  {before after : GraphQL.Progress}

-----------------------------------------------------------------------------------------
-- Shapes
-----------------------------------------------------------------------------------------

/-- A field and a property stand for the same entry of a message. For a field of the message, the
GraphQL type is a list exactly if the TypeScript one is an array, and the property has to be there
exactly if null is excluded and the type is no list. For a group, the GraphQL type is the union of
the fields that its member names stand for, which may be null; the property has to be there, and its
type is that of any member.
-/
inductive SameShape (progress : GraphQL.Progress) (int64 other : Integer64) (scope : Scope)
    (message : Message)
    : Message.Slot → GraphQL.FieldDefinition → TypeScript.Property → Prop
  | single {field : Field} {definition : GraphQL.FieldDefinition} {property : TypeScript.Property}
    (typed : progress.TypesField int64 scope message field definition.type)
    (array
      : property.type
        = TypeScript.fieldBase other scope message field
          ++ if definition.type.isList then "[]" else "")
    (present
      : property.optional = false
        ↔ definition.type.isNonNull = true ∧ definition.type.isList = false)
    : SameShape progress int64 other scope message (.single field) definition property
  | group {group : String} {definition : GraphQL.FieldDefinition} {property : TypeScript.Property}
    {union : GraphQL.UnionType}
    (registered
      : progress.registry.get? (GraphQL.groupName message group) = some (.union union))
    (named : definition.type = .named union.name)
    (typed
      : List.Forall₂ (progress.TypesField int64 scope message) (message.namedFields group)
          union.members)
    (nullable : definition.type.isNonNull = false)
    (present : property.optional = false)
    (alternatives
      : property.type = " | ".intercalate (TypeScript.alternatives other scope message group))
    : SameShape progress int64 other scope message (.group group) definition property

/-- A field of the message has the same shape in both targets. -/
theorem sameShape_single {definition : GraphQL.FieldDefinition}
    (typed : after.TypesField int64 scope message field definition.type)
    : SameShape after int64 other scope message (.single field) definition
        (TypeScript.propertyOf other scope message (.single field)) := by
  obtain ⟨list, nonNull⟩ := typed.wrapping
  refine .single typed ?array ?present
  case array =>
    simp only [TypeScript.propertyOf, TypeScript.fieldText_eq_arrayType, TypeScript.arrayType, list]
    split <;> simp
  case present =>
    simp only [TypeScript.propertyOf, list, nonNull]
    cases field.required <;> cases field.repeated <;> simp

/-- What the conversion of a message has for an entry is of the same shape as the property, by cases
on the entry.
-/
theorem sameShape_of_typesSlot {slot : Message.Slot} {definition : GraphQL.FieldDefinition}
    (steps : GraphQL.Registers int64 scope (.fields message) before after)
    (unions
      : ∀ group,
          slot = .group group
          → before.registry.get? (GraphQL.groupName message group) = none
            ∧ ∃ union,
                after.registry.get? (GraphQL.groupName message group) = some (.union union))
    (typed : after.TypesSlot int64 scope message slot definition)
    : SameShape after int64 other scope message slot definition
        (TypeScript.propertyOf other scope message slot) := by
  cases GraphQL.Registers.shows_of_typesSlot steps unions typed with
  | single _ typed => exact sameShape_single typed
  | group _ registered named members =>
      refine .group registered named members ?_ rfl rfl
      rw [named]
      rfl

/-- A message has the same shape in both targets, whatever was converted before, if its conversion
registers unions for its groups. The fields and the properties have the same names in the same
order, and correspond one by one. The alternatives of a property for a group are those for the
members of the union, for all groups, exactly if each field that names an undeclared group is the
first field of its name.
-/
theorem messages_have_one_shape {style : TypeScript.CommentStyle}
    {definitions : List GraphQL.FieldDefinition} {start last : TypeScript.Progress} {text : String}
    (converted
      : exec (GraphQL.messageFields int64 scope message) before
        = (.ok definitions, after))
    (unions
      : ∀ group,
          message.HasGroup group
          → before.registry.get? (GraphQL.groupName message group) = none
            ∧ ∃ union,
                after.registry.get? (GraphQL.groupName message group) = some (.union union))
    (declared
      : exec (TypeScript.declaration style other scope (.message message)) start
        = (.ok text, last))
    : ∃ properties : List TypeScript.Property,
        text
          = TypeScript.printInterface style message
              (properties.map (TypeScript.Property.print style))
        ∧ definitions.map GraphQL.FieldDefinition.name
          = ((Message.placed message.fields).map fun field => field.oneof.getD field.name)
        ∧ properties.map TypeScript.Property.name
          = ((Message.placed message.fields).map fun field => field.oneof.getD field.name)
        ∧ SideBySide (SameShape after int64 other scope message) message.slots definitions
            properties
        ∧ (message.OwnMembers
          ↔ ∀ group,
              message.HasGroup group
              → TypeScript.groupFields message group = message.namedFields group) := by
  have serves := @GraphQL.messageFields_serves int64 scope message before
  rw [converted] at serves
  obtain ⟨written, groups⟩ := TypeScript.properties_of_declaration declared
  cases serves with
  | ok steps result =>
      obtain ⟨typed, _⟩ := result
      refine ⟨_, written, ?definitions, ?properties, ?shapes, ?members⟩
      case definitions => rw [GraphQL.names_of_typesSlots typed, Message.titles_slots]
      case properties =>
        rw [List.map_map, ← Message.titles_slots]
        exact List.map_congr_left fun slot _ => TypeScript.name_propertyOf slot
      case shapes =>
        refine SideBySide.of_forall₂ _ typed fun slot member definition typed => ?_
        refine sameShape_of_typesSlot steps (fun group same => ?_) typed
        exact unions group (Message.group_mem_slots.mp (same ▸ member))
      case members =>
        rw [Message.ownMembers_iff groups]
        refine forall₂_congr fun group present => ?_
        obtain ⟨members, found⟩ := groups group present
        simp only [TypeScript.groupFields, found, Except.ok.injEq]

/-- A message that refers to itself, with a map and a group, has one shape once it is registered. -/
theorem person_has_one_shape
    : ∃ definitions after text last,
        exec (GraphQL.messageFields .text GraphQL.selfReference GraphQL.person)
            (exec (GraphQL.build GraphQL.selfReference : GraphQL.Pass Unit) {}).2
          = (.ok definitions, after)
        ∧ exec
            (TypeScript.declaration TypeScript.jsDoc .text GraphQL.selfReference
              (.message GraphQL.person))
            {}
          = (.ok text, last)
        ∧ ∃ properties : List TypeScript.Property,
            properties.map TypeScript.Property.name = ["friend", "scores", "contact"]
            ∧ SideBySide (SameShape after .text .text GraphQL.selfReference GraphQL.person)
                GraphQL.person.slots definitions properties := by
  have converted
      : (exec (GraphQL.messageFields .text GraphQL.selfReference GraphQL.person)
          (exec (GraphQL.build GraphQL.selfReference : GraphQL.Pass Unit) {}).2).1
        = .ok [
            { name := "friend", type := .named "Person" },
            { name := "scores", type := .nonNull (.named "ScoresEntry_string_int32") },
            { name := "contact", type := .named "Person_contact" }] := by
    decide +kernel
  have declared
      : (exec
          (TypeScript.declaration TypeScript.jsDoc .text GraphQL.selfReference
            (.message GraphQL.person))
          {}).1
        = .ok
            ("export interface Person \x7b\n  friend?: Person;\n"
              ++ "  scores: ScoresEntry_string_int32;\n  contact: string | Person;\n\x7d") := by
    decide +kernel
  have shape := @messages_have_one_shape .text .text GraphQL.selfReference GraphQL.person _ _ _ _
    _ _ _ (Prod.ext converted rfl) (fun group present => ?unions) (Prod.ext declared rfl)
  case unions =>
    cases GraphQL.person_groups present
    let union : GraphQL.UnionType := {
      name := "Person_contact", members := [.named "String", .named "Person"] }
    exact ⟨by decide +kernel, union, by decide +kernel⟩
  obtain ⟨properties, _, _, names, shapes, _⟩ := shape
  refine ⟨_, _, _, _, Prod.ext converted rfl, Prod.ext declared rfl, properties, ?_, shapes⟩
  rw [names]
  decide +kernel

-----------------------------------------------------------------------------------------
-- Members that are not the first fields of their names
-----------------------------------------------------------------------------------------

/-- A message with two fields of one name and of different types, the second of them in a group that
is not declared.
-/
def twofold : Message where
  name := "M"
  fields := [
    { name := "x", type := .scalar .string },
    { name := "x", type := .scalar .int32, oneof := some "g" }]

/-- The message as the only type of the catalog and of the list. -/
def twofoldSchema : Scope where
  catalog := { types := .ofEntries [("M", .message twofold)] }
  listed := [.message twofold]

/-- The union for the group has the type of the field outside of it, while the alternative in the
interface is that of the member.
-/
theorem shapes_differ
    : (GraphQL.convert .text twofoldSchema).isOk
      ∧ (GraphQL.finalProgress .text twofoldSchema).registry.values.map GraphQL.NamedType.print
        = ["type M \x7b\n  x: String!\n  g: M_g\n\x7d", "union M_g = String!"]
      ∧ TypeScript.convert TypeScript.jsDoc .text twofoldSchema
        = .ok {
            source := "export interface M \x7b\n  x: string;\n  g: number;\n\x7d\n"
            warnings := [] }
      ∧ TypeScript.alternatives .text twofoldSchema twofold "g" = ["number"]
      ∧ ((twofold.namedFields "g").map
            (TypeScript.fieldText .text twofoldSchema twofold)).eraseDups
          = ["string"]
      ∧ ¬ twofold.OwnMembers := by
  have hidden : ¬ twofold.OwnMembers := by
    intro own
    have first := own _ (List.mem_cons_of_mem _ List.mem_cons_self) "g" rfl (by decide)
    exact absurd first (by decide +kernel)
  refine ⟨?_, ?_, ?_, ?_, ?_, hidden⟩
  all_goals decide +kernel

end ProtoSchema
