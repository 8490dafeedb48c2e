import ProtoSchema.Proofs.GraphQL.EntryTypes
import ProtoSchema.Proofs.GraphQL.Success

/-! References to nothing. A conversion looks a reference up among the registered names and then in
the scope, so it fails on one that matches nothing there, provided that it comes to the field: the
registry must not hold something else under the name of the field's entries or of its group. A
listed message is registered before any of these.
-/

namespace ProtoSchema.GraphQL

open Schema

variable {int64 : Integer64} {scope : Scope} {progress : Progress} {message : Message}
  {field : Field} {reference : String}

/-- Nothing else that belongs to the schema has the name of the origin. -/
def HasOwnName (scope : Scope) (origin : Origin) : Prop :=
  ∀ other, Belongs scope other → other.name = origin.name → other = origin

/-- The entries of the field and its group have names of their own. -/
structure OwnNames (scope : Scope) (message : Message) (field : Field) : Prop where
  entry
    : ∀ key,
        field.mapKey = some key
        → HasOwnName scope (.node (.message (MapEntry.message message field key)))
  group : ∀ group, field.oneof = some group → HasOwnName scope (.group message group)

/-- The reference matches nothing: it denotes nothing in the scope, and nothing that belongs to the
schema has its name.
-/
structure MatchesNothing (scope : Scope) (reference : String) : Prop where
  denotes : scope.find? reference = none
  unnamed : ∀ origin, Belongs scope origin → origin.name ≠ Name.dropLeadingDots reference

/-- An origin with a name of its own owns what is registered under it. -/
theorem Progress.Complete.owns {origin : Origin} (complete : progress.Complete int64 scope)
    (own : HasOwnName scope origin)
    : progress.Owns int64 scope origin := by
  intro type found
  obtain ⟨other, known, named, comes⟩ := complete.consistent.sound found
  rw [← own other (known.belongs onlyListed_isOpen) named]
  exact comes

/-- A listed message owns what is registered under its name, if the list has no other type of it. -/
theorem Progress.Complete.owns_listed (complete : progress.Complete int64 scope)
    (listed : .message message ∈ scope.listed)
    (unique : ∀ node ∈ scope.listed, node.name = message.name → node = .message message)
    : progress.Owns int64 scope (.node (.message message)) := by
  intro type found
  obtain ⟨owner, member, named, held⟩ := complete.held _ listed
  cases unique owner member named
  obtain ⟨other, stored, comes⟩ := held.registered
  cases found.symm.trans stored
  exact comes

/-- A field that is no map has no type if its reference matches nothing, by cases on how the
reference could be resolved.
-/
theorem Progress.Complete.not_typesField {type : TypeRef}
    (complete : progress.Complete int64 scope) (nothing : MatchesNothing scope reference)
    (keyless : field.mapKey = none) (named : field.type = .named reference)
    : ¬ progress.TypesField int64 scope message field type := by
  intro typed
  cases typed with
  | wrapped based =>
      cases based with
      | scalar _ kind => cases kind.symm.trans named
      | entry keyed _ => cases keyless.symm.trans keyed
      | reference _ otherNamed resolves =>
          cases otherNamed.symm.trans named
          cases resolves with
          | declared denotes _ => cases nothing.denotes.symm.trans denotes
          | registered found =>
              obtain ⟨_, registered, _⟩ := Progress.reference?_eq_some.mp found
              obtain ⟨origin, known, sameName, _⟩ := complete.consistent.sound registered
              exact nothing.unnamed origin (known.belongs onlyListed_isOpen) sameName

/-- Each field of a message that owns its name has a type in complete progress, by cases on whether it
belongs to a group.
-/
theorem Progress.Complete.typesOwnField (complete : progress.Complete int64 scope)
    (owns : progress.Owns int64 scope (.node (.message message)))
    (own : OwnNames scope message field) (grouped : message.Grouped) {type : NamedType}
    (found : progress.registry.get? message.name = some type) (member : field ∈ message.fields)
    : ∃ type, progress.TypesField int64 scope message field type := by
  cases named : field.oneof with
  | none =>
      obtain ⟨_, typed⟩ :=
        complete.typesSlot owns found (Message.single_mem_slots.mpr ⟨member, named⟩)
      cases typed with
      | single typed => exact ⟨_, typed⟩
  | some group =>
      obtain ⟨declared, same, inside⟩ := grouped.oneof? member named
      have listed : field.name ∈ message.memberNames group := by
        rw [Message.memberNames, same]
        exact inside
      obtain ⟨type, other, known, typed⟩ :=
        complete.typesMember owns (complete.owns (own.group group named)) found
          ⟨field, member, named⟩ listed
      cases (grouped.field? member).symm.trans known
      exact ⟨type, typed⟩

/-- A conversion fails if a listed message has a field whose reference matches nothing, where the list
has no other type of its name, and the entries of the field and its group have names of their own.
-/
theorem convert_fails_of_matchesNothing (listed : .message message ∈ scope.listed)
    (unique : ∀ node ∈ scope.listed, node.name = message.name → node = .message message)
    (grouped : message.Grouped) (member : field ∈ message.fields)
    (named : field.type = .named reference) (nothing : MatchesNothing scope reference)
    (own : OwnNames scope message field)
    : ∃ error, convert int64 scope = .error error := by
  cases success : convert int64 scope with
  | error error => exact ⟨error, rfl⟩
  | ok definitions =>
      have complete := convert_complete success
      obtain ⟨_, listedReference⟩ := complete.listed listed
      obtain ⟨_, found, _⟩ := Progress.reference?_eq_some.mp listedReference
      obtain ⟨type, typed⟩ := complete.typesOwnField (complete.owns_listed listed unique) own grouped
        found member
      cases keyed : field.mapKey with
      | none => exact absurd typed (complete.not_typesField nothing keyed named)
      | some key =>
          obtain ⟨_, entryReference⟩ := typed.entry keyed
          obtain ⟨_, stored, _⟩ := Progress.reference?_eq_some.mp entryReference
          rw [← MapEntry.name_message] at stored
          -- The value of the entry has the reference, and it belongs to no group.
          have value : Message.Slot.single { name := "value", type := field.type }
              ∈ (MapEntry.message message field key).slots :=
            Message.single_mem_slots.mpr ⟨MapEntry.mem_fields.mpr (.inr rfl), rfl⟩
          obtain ⟨_, typed⟩ :=
            complete.typesSlot (complete.owns (own.entry key keyed)) stored value
          cases typed with
          | single typed => exact absurd typed (complete.not_typesField nothing rfl named)

end ProtoSchema.GraphQL
