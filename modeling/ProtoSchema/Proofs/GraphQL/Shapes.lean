import ProtoSchema.Proofs.GraphQL.Serving

/-! The shapes of fields and unions: whether the type of a field is a list and whether it excludes
null, which fields give a union its members, and so which fields of a message are shown.
-/

namespace ProtoSchema.GraphQL

open Schema

-----------------------------------------------------------------------------------------
-- Lists and exclusions of null
-----------------------------------------------------------------------------------------

/-- The type is a list, whether null is excluded or not. -/
def TypeRef.isList : TypeRef → Bool
  | .named _ => false
  | .list _ => true
  | .nonNull item => item.isList

/-- The type excludes null. -/
def TypeRef.isNonNull : TypeRef → Bool
  | .named _ => false
  | .list _ => false
  | .nonNull _ => true

variable {int64 : Integer64} {scope : Scope} {message : Message} {field : Field}
  {before after : Progress}

theorem isList_wrapType (field : Field) (name : String)
    : (wrapType field (.named name)).isList = field.repeated := by
  unfold wrapType
  cases field.repeated <;> cases field.required <;> rfl

theorem isNonNull_wrapType (field : Field) (name : String)
    : (wrapType field (.named name)).isNonNull = field.required := by
  unfold wrapType
  cases field.repeated <;> cases field.required <;> rfl

/-- The base type of a field is that of a name, by cases on what the field holds. -/
theorem Progress.TypesBase.named {type : TypeRef}
    (based : after.TypesBase int64 scope message field type)
    : ∃ name, type = .named name := by
  have named {qualified : String} (found : after.reference? qualified = some type)
      : ∃ name, type = .named name := by
    obtain ⟨registered, _, same⟩ := Progress.reference?_eq_some.mp found
    exact ⟨registered.name, same⟩
  cases based with
  | scalar _ _ => exact ⟨_, rfl⟩
  | entry _ found => exact named found
  | reference _ _ resolves =>
      cases resolves with
      | registered found => exact named found
      | declared _ found => exact named found

/-- A field has a list for a type if it is repeated, and a type without null if it is required. -/
theorem Progress.TypesField.wrapping {type : TypeRef}
    (typed : after.TypesField int64 scope message field type)
    : type.isList = field.repeated ∧ type.isNonNull = field.required := by
  cases typed with
  | wrapped based =>
      obtain ⟨name, rfl⟩ := based.named
      exact ⟨isList_wrapType field name, isNonNull_wrapType field name⟩

theorem Progress.TypesSlot.title {slot : Message.Slot} {definition : FieldDefinition}
    (typed : after.TypesSlot int64 scope message slot definition)
    : definition.name = slot.title := by
  cases typed <;> rfl

/-- The fields have the names of the properties that they stand for, in order. -/
theorem names_of_typesSlots {slots : List Message.Slot} {definitions : List FieldDefinition}
    (typed : List.Forall₂ (after.TypesSlot int64 scope message) slots definitions)
    : definitions.map FieldDefinition.name = slots.map Message.Slot.title := by
  induction typed with
  | nil => rfl
  | cons head _ ih => rw [List.map_cons, List.map_cons, head.title, ih]

-----------------------------------------------------------------------------------------
-- Unions
-----------------------------------------------------------------------------------------

/-- Groups of a message have different names. -/
theorem groupName_injective {first second : String}
    (same : groupName message first = groupName message second)
    : first = second := by
  rw [groupName, groupName] at same
  have chars := congrArg String.toList same
  simp only [String.toList_append] at chars
  exact String.toList_inj.mp (List.append_cancel_left chars)

/-- Types for all member names of a group are types for the fields that these names stand for, by
induction on the names.
-/
theorem typesFields_of_typesMembers {names : List String} {types : List TypeRef}
    (typed : List.Forall₂ (after.TypesMember int64 scope message) names types)
    : List.Forall₂ (after.TypesField int64 scope message) (names.filterMap message.field?)
        types := by
  induction typed with
  | nil => exact .nil
  | cons head _ ih =>
      obtain ⟨field, found, typed⟩ := head
      rw [List.filterMap_cons_some found]
      exact .cons typed ih

/-- Unions are made from groups, with types for the member names; by cases on the origin. -/
theorem Progress.Makes.group_of_union {origin : Origin} {union : UnionType}
    (made : after.Makes int64 scope origin (.union union))
    : ∃ owner group,
        origin = .group owner group
        ∧ List.Forall₂ (after.TypesMember int64 scope owner) (owner.memberNames group)
            union.members := by
  generalize same : NamedType.union union = type at made
  cases made with
  | enumeration content => cases same
  | message content =>
      unfold objectType at same
      split at same <;> cases same
  | group typed =>
      rw [NamedType.union.inj same]
      exact ⟨_, _, rfl, typed⟩

/-- A union that the conversion of a message registers under the name of a group has the fields of
that group for members.
-/
theorem Registers.typesFields_of_union {group : String} {union : UnionType}
    (steps : Registers int64 scope (.fields message) before after)
    (fresh : before.registry.get? (groupName message group) = none)
    (registered : after.registry.get? (groupName message group) = some (.union union))
    : List.Forall₂ (after.TypesField int64 scope message) (message.namedFields group)
        union.members := by
  rcases steps.made_of_new registered with old | ⟨_, origin, allowed, named, made⟩
  · cases fresh.symm.trans old
  · obtain ⟨owner, title, rfl, typed⟩ := made.group_of_union
    cases allowed with
    | group _ =>
        cases groupName_injective named
        exact typesFields_of_typesMembers typed
    | value allowed =>
        obtain ⟨node, impossible⟩ := allowed.node_of_values
        cases impossible

/-- A field shows fields of the message: one by its own type, or those that the member names of a
group stand for, by the union that is registered for the group.
-/
inductive Progress.Shows (progress : Progress) (int64 : Integer64) (scope : Scope)
    (message : Message)
    : Message.Slot → FieldDefinition → List Field → Prop
  | single {field : Field} {definition : FieldDefinition} (titled : definition.name = field.name)
    (typed : progress.TypesField int64 scope message field definition.type)
    : Shows progress int64 scope message (.single field) definition [field]
  | group {group : String} {definition : FieldDefinition} {union : UnionType}
    (titled : definition.name = group)
    (registered : progress.registry.get? (groupName message group) = some (.union union))
    (named : definition.type = .named union.name)
    (typed
      : List.Forall₂ (progress.TypesField int64 scope message) (message.namedFields group)
          union.members)
    : Shows progress int64 scope message (.group group) definition (message.namedFields group)

theorem Progress.Shows.fields_eq {progress : Progress} {slot : Message.Slot}
    {definition : FieldDefinition} {fields : List Field}
    (shows_ : progress.Shows int64 scope message slot definition fields)
    : fields = message.slotFields slot := by
  cases shows_ <;> rfl

/-- What the conversion of a message has for a place shows the fields of the place, if it has
registered a union for a group; by cases on the place.
-/
theorem Registers.shows_of_typesSlot {slot : Message.Slot} {definition : FieldDefinition}
    (steps : Registers int64 scope (.fields message) before after)
    (unions
      : ∀ group,
          slot = .group group
          → before.registry.get? (groupName message group) = none
            ∧ ∃ union, after.registry.get? (groupName message group) = some (.union union))
    (typed : after.TypesSlot int64 scope message slot definition)
    : after.Shows int64 scope message slot definition (message.slotFields slot) := by
  cases typed with
  | single typed => exact .single rfl typed
  | @group group type found =>
      obtain ⟨fresh, union, registered⟩ := unions group rfl
      obtain ⟨_, same, rfl⟩ := Progress.reference?_eq_some.mp found
      cases registered.symm.trans same
      exact .group rfl registered rfl (steps.typesFields_of_union fresh registered)

end ProtoSchema.GraphQL
