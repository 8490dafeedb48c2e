import ProtoSchema.Proofs.GraphQL.Completion
import ProtoSchema.Proofs.GraphQL.Definitions
import ProtoSchema.Proofs.GraphQL.Sources

/-! What a successful conversion ends with: the listed types and all that they refer to are
registered, nothing else is, and each is printed once.
-/

namespace ProtoSchema.GraphQL

open Schema
open Execution

variable {int64 : Integer64} {scope : Scope} {asked : Request → Prop} {progress : Progress}
  {before middle after : Progress}

/-- The names of the built-in types. -/
def builtinNames : List String :=
  ["Int", "Float", "String", "Boolean"]

/-- The name is that of a built-in type or of a registered one. -/
def Progress.Provides (progress : Progress) (name : String) : Prop :=
  name ∈ builtinNames
    ∨ ∃ owner type, progress.registry.get? owner = some type ∧ type.name = name

theorem Progress.provides_of_reference {name : String} {type : TypeRef}
    (found : progress.reference? name = some type)
    : progress.Provides type.baseName := by
  obtain ⟨named, registered, rfl⟩ := Progress.reference?_eq_some.mp found
  exact .inr ⟨name, named, registered, rfl⟩

/-- The base type of a field is provided, by cases on what it is. -/
theorem Progress.TypesBase.provides {message : Message} {field : Field} {type : TypeRef}
    (based : progress.TypesBase int64 scope message field type)
    : progress.Provides type.baseName := by
  cases based with
  | @scalar kind keyless same =>
      refine .inl ?_
      cases kind.graphQL int64 <;> decide
  | entry keyed found => exact Progress.provides_of_reference found
  | reference keyless named resolves =>
      cases resolves with
      | registered found => exact Progress.provides_of_reference found
      | declared denotes found => exact Progress.provides_of_reference found

theorem Progress.TypesField.provides {message : Message} {field : Field} {type : TypeRef}
    (typed : progress.TypesField int64 scope message field type)
    : progress.Provides type.baseName := by
  cases typed with
  | wrapped based =>
      rw [baseName_wrapType]
      exact based.provides

theorem Progress.TypesSlot.provides {message : Message} {slot : Message.Slot}
    {field : FieldDefinition} (typed : progress.TypesSlot int64 scope message slot field)
    : progress.Provides field.type.baseName := by
  cases typed with
  | single typed => exact typed.provides
  | group found => exact Progress.provides_of_reference found

theorem baseNames_objectType (message : Message) : (objectType message).baseNames = [] := by
  unfold objectType
  split <;> rfl

theorem baseNames_withFields (message : Message) (fields : List FieldDefinition)
    : ((objectType message).withFields fields).baseNames
      = fields.map fun field => field.type.baseName := by
  unfold objectType
  split <;> rfl

/-- Every name in the fields or members of a type is provided, by cases on its origin. -/
theorem Progress.Comes.provides {origin : Origin} {type : NamedType}
    (comes : progress.Comes int64 scope origin type) {base : String}
    (member : base ∈ type.baseNames)
    : progress.Provides base := by
  cases comes with
  | filled typed =>
      rw [baseNames_withFields] at member
      obtain ⟨field, present, rfl⟩ := List.mem_map.mp member
      obtain ⟨_, _, typed⟩ := related_of_mem typed present
      exact typed.provides
  | made made =>
      cases made with
      | enumeration content => exact absurd member List.not_mem_nil
      | message content =>
          rw [baseNames_objectType] at member
          exact absurd member List.not_mem_nil
      | group typed =>
          obtain ⟨type, present, rfl⟩ := List.mem_map.mp member
          obtain ⟨_, _, _, _, typed⟩ := related_of_mem typed present
          exact typed.provides

-----------------------------------------------------------------------------------------
-- Reachability from the listed types
-----------------------------------------------------------------------------------------

/-- The names of the types of the listed nodes. -/
def rootNames (scope : Scope) : List String :=
  scope.listed.map fun node => typeName node.name

/-- Every registered type is reached from the listed ones. -/
def Progress.Rooted (progress : Progress) (scope : Scope) : Prop :=
  ∀ name type,
    progress.registry.get? name = some type → progress.Leads (rootNames scope) type.name

/-- Registering the listed types keeps everything rooted, by induction on the registrations. -/
theorem Registers.rooted (steps : Registers int64 scope .listed before after)
    (rooted : before.Rooted scope)
    : after.Rooted scope := by
  induction steps with
  | refl => exact rooted
  | tail _ step ih =>
      have extends_ := Registers.extends (.single step)
      cases step with
      | @enter origin entered allowed made fresh free =>
          intro name type found
          rw [Progress.registry_enter] at found
          split at found
          · cases found
            rw [made.name]
            cases allowed with
            | listed member => exact .root (List.mem_map.mpr ⟨_, member, rfl⟩)
            | found refers _ => cases refers
          · exact (ih name type found).mono extends_ fun root member => .root member

/-- Filling in fields extends the registry, where the object had none before. -/
theorem Progress.extends_fill {message : Message} {fields : List FieldDefinition}
    (registered : progress.registry.get? message.name = some (objectType message))
    : progress.Extends (progress.fill message.name fields) := by
  intro name type found
  refine ⟨if name = message.name then type.withFields fields else type, ?_, ?_, ?_⟩
  · rw [Progress.registry_fill, found]
    split <;> rfl
  · split
    · exact NamedType.name_withFields type fields
    · rfl
  · split
    · next same =>
        rw [same, registered] at found
        cases found
        rw [baseNames_objectType]
        exact List.nil_subset _
    · exact List.Subset.refl _

/-- Converting the fields of a message keeps everything rooted: what it registers is reached from
these fields, and so from the message.
-/
theorem Forced.rooted {name : String}
    (forced : Forced int64 scope before name (.ok ⟨⟩, after))
    (consistent : before.Consistent int64 scope asked) (rooted : before.Rooted scope)
    : after.Rooted scope := by
  cases forced with
  | idle absent => exact rooted
  | @converted message fields middle queued steps typed explains =>
      obtain ⟨rfl, known, registered⟩ := consistent.queued queued
      have kept : middle.registry.get? message.name = some (objectType message) :=
        Registers.retains steps registered
      have filled : middle.Extends (middle.fill message.name fields) := Progress.extends_fill kept
      have extends_ : before.Extends (middle.fill message.name fields) :=
        (Registers.extends steps).trans filled
      have owner : (middle.fill message.name fields).Leads (rootNames scope)
          (objectType message).name :=
        (rooted _ _ registered).mono extends_ fun _ member => .root member
      have stored : (middle.fill message.name fields).registry.get? message.name
          = some ((objectType message).withFields fields) := by
        rw [Progress.registry_fill, if_pos rfl, kept]
        rfl
      -- `explains` speaks of the names in the fields, which the message leads to once it has them.
      have fieldLeads (base : String)
          (member : base ∈ (fields.map FieldDefinition.type).map TypeRef.baseName)
          : (middle.fill message.name fields).Leads (rootNames scope) base := by
        refine .follow owner stored (NamedType.name_withFields _ _) ?_
        rw [List.map_map] at member
        rw [baseNames_withFields]
        exact member
      have reached (name : String) (type : NamedType)
          (found : middle.registry.get? name = some type)
          : (middle.fill message.name fields).Leads (rootNames scope) type.name := by
        rcases explains name type found with earlier | path
        · exact (rooted name type earlier).mono extends_ fun _ member => .root member
        · exact path.mono filled fieldLeads
      intro name type found
      rw [Progress.registry_fill] at found
      split at found
      · obtain ⟨earlier, present, rfl⟩ := Option.map_eq_some_iff.mp found
        rw [NamedType.name_withFields]
        exact reached name earlier present
      · exact reached name type found

/-- A conversion that succeeds ends with everything rooted. -/
theorem convert_rooted {definitions : List String}
    (success : convert int64 scope = .ok definitions)
    : (finalProgress int64 scope).Rooted scope := by
  obtain ⟨built, builds, forced, _⟩ := convert_ok success
  have serves := @build_serves int64 scope {}
  rw [builds] at serves
  have rooted : built.Rooted scope := by
    cases serves with
    | ok steps _ => exact Registers.rooted steps fun name type found => by simp at found
  have start : built.Consistent int64 scope onlyListed ∧ built.Rooted scope :=
    ⟨(build_underway builds).consistent, rooted⟩
  have kept (before : Progress) (name : String) (after : Progress)
      (step : Forced int64 scope before name (.ok ⟨⟩, after))
      (holds : before.Consistent int64 scope onlyListed ∧ before.Rooted scope)
      : after.Consistent int64 scope onlyListed ∧ after.Rooted scope :=
    ⟨step.consistent holds.1, step.rooted holds.1 holds.2⟩
  exact ((materialized_of_run forced).preserves kept start).2

/-- The output of a conversion that succeeds is closed and exact. The listed types are registered
and no registered object is without its fields; every name in a field or member is that of a
built-in type or of exactly one registered type; every registered type is reached from the listed
ones; and each is printed once, in the strict order of the bytes of its name.
-/
theorem convert_closed {int64 : Integer64} {scope : Scope} {definitions : List String}
    (success : convert int64 scope = .ok definitions)
    : (∀ node ∈ scope.listed,
        ∃ type, (finalProgress int64 scope).registry.get? node.name = some type)
      ∧ (∀ name, ¬ (finalProgress int64 scope).Pending name)
      ∧ (∀ name type,
          (finalProgress int64 scope).registry.get? name = some type
          → ∀ base ∈ type.baseNames,
              base ∈ builtinNames
              ∨ ∃! owner,
                  ∃ used,
                    (finalProgress int64 scope).registry.get? owner = some used
                    ∧ used.name = base)
      ∧ (∀ name type,
          (finalProgress int64 scope).registry.get? name = some type
          → (finalProgress int64 scope).Leads (rootNames scope) type.name)
      ∧ ∃ types : List NamedType,
          types.Perm (finalProgress int64 scope).registry.values
          ∧ (types.Pairwise fun left right => ByteLess left.name right.name)
          ∧ definitions = types.map NamedType.print := by
  have complete := convert_complete success
  refine ⟨?listed, complete.settled, ?closed, convert_rooted success, ?printed⟩
  case listed =>
    intro node member
    obtain ⟨type, found⟩ := complete.listed member
    obtain ⟨named, registered, _⟩ := Progress.reference?_eq_some.mp found
    exact ⟨named, registered⟩
  case closed =>
    intro name type found base member
    obtain ⟨origin, _, _, comes⟩ := complete.consistent.sound found
    apply (comes.provides member).imp_right
    intro provided
    rcases provided with ⟨owner, used, registered, named⟩
    refine ⟨owner, ⟨used, registered, named⟩, ?_⟩
    intro other provided
    rcases provided with ⟨rival, rivalRegistered, rivalNamed⟩
    exact complete.consistent.owner_unique rivalRegistered registered (rivalNamed.trans named.symm)
  case printed =>
    obtain ⟨_, _, _, rfl⟩ := convert_ok success
    exact ⟨_, Progress.printed_perm _, complete.consistent.printed_byteLess, rfl⟩

/-- The output for a message that refers to itself is closed: its map and its group have types of
their own, which it leads to.
-/
theorem selfReference_closed
    : (finalProgress .text selfReference).registry.keys
        = ["Person", "ScoresEntry_string_int32", "Person.contact"]
      ∧ (finalProgress .text selfReference).Leads ["Person"] "Person_contact" := by
  obtain ⟨_, success⟩ := selfReference_converts
  obtain ⟨_, _, _, rooted, _⟩ := convert_closed success
  refine ⟨by decide +kernel, ?_⟩
  have registered : ((finalProgress .text selfReference).registry.get? "Person.contact").map
      NamedType.name = some "Person_contact" := by
    decide +kernel
  obtain ⟨type, found, named⟩ := Option.map_eq_some_iff.mp registered
  have path := rooted _ _ found
  rw [named] at path
  exact path

end ProtoSchema.GraphQL
