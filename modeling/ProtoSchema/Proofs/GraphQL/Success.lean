import ProtoSchema.Proofs.GraphQL.Completion
import ProtoSchema.Proofs.GraphQL.Translation

/-! When a conversion succeeds. Where names do not collide, success depends only on the origins that
the listed types lead to: what their fields refer to must denote something, the members of their
groups must be fields, and no two of them may share the name of their type. Complete progress has
registered all of these origins; a conversion that fails was obstructed at one of them.
-/

namespace ProtoSchema.GraphQL

open Schema
open Execution

variable {int64 : Integer64} {scope : Scope} {progress before after : Progress}

/-- The listed types lead to the origin. -/
abbrev Needed (scope : Scope) : Origin → Prop :=
  Known scope onlyListed

theorem onlyListed_isOpen (request : Request) (only : onlyListed request) : IsOpen request := by
  rw [only]
  rfl

theorem Needed.source {origin : Origin} (needed : Needed scope origin) (free : CollisionFree scope)
    : Source scope origin :=
  Known.source free onlyListed_isOpen needed

/-- Every reference is to the name of a listed type or to a key of the catalog. -/
def DirectReferences (scope : Scope) : Prop :=
  ∀ name,
    Referenced scope name
    → (∃ node ∈ scope.listed, node.name = name) ∨ name ∈ scope.catalog.names

/-- What the listed types lead to can be looked up: the references in it denote something, and the
members of its groups are fields.
-/
structure Resolvable (scope : Scope) : Prop where
  finds
    : ∀ {message : Message} {reference},
        Needed scope (.node (.message message))
        → (Request.values message).Refers reference
        → ∃ node, scope.find? reference = some node
  members
    : ∀ {message : Message} {group member},
        Needed scope (.node (.message message))
        → message.HasGroup group
        → member ∈ message.memberNames group
        → ∃ field, message.field? member = some field

/-- The listed types lead to two origins with different names that share the name of their type. -/
structure Clash (scope : Scope) (owner rival : Origin) : Prop where
  neededOwner : Needed scope owner
  neededRival : Needed scope rival
  apart : owner.name ≠ rival.name
  shared : typeName owner.name = typeName rival.name

/-- Nothing stands in the way of converting what the listed types lead to. -/
structure Convertible (scope : Scope) : Prop where
  distinct
    : ∀ {first second},
        Needed scope first
        → Needed scope second
        → typeName first.name = typeName second.name
        → first.name = second.name
  members
    : ∀ {message : Message} {group member},
        Needed scope (.node (.message message))
        → message.HasGroup group
        → member ∈ message.memberNames group
        → ∃ field, message.field? member = some field

-----------------------------------------------------------------------------------------
-- Complete progress has registered everything that is needed
-----------------------------------------------------------------------------------------

/-- What a direct reference in a source denotes is a source under the name that it is written
with.
-/
theorem find?_of_direct {reference : String} (free : CollisionFree scope)
    (direct : DirectReferences scope)
    (referenced : Referenced scope (Name.dropLeadingDots reference))
    : ∃ node,
        scope.find? reference = some node
        ∧ node.name = Name.dropLeadingDots reference := by
  by_cases listed : ∃ node ∈ scope.listed, node.name = Name.dropLeadingDots reference
  · obtain ⟨node, member, named⟩ := listed
    have source : Source scope (.node node) := .listed member
    obtain ⟨other, same, denotes⟩ := find?_of_source free source named (.referenced referenced)
    cases same
    exact ⟨node, denotes, named⟩
  · have stored := (direct _ referenced).resolve_left listed
    obtain ⟨node, found⟩ := OrderedMap.mem_keys_iff.mp stored
    have named := free.keys found
    have source : Source scope (.node node) := by
      refine .catalog (OrderedMap.mem_values_iff.mpr ⟨_, found⟩) fun other member same => ?_
      exact listed ⟨other, member, same.trans named⟩
    obtain ⟨other, same, denotes⟩ := find?_of_source free source named (.referenced referenced)
    cases same
    exact ⟨node, denotes, named⟩

/-- A needed origin whose name is registered in complete progress was converted from it. -/
theorem Progress.Complete.comes {origin : Origin} (complete : progress.Complete int64 scope)
    (free : CollisionFree scope) (needed : Needed scope origin)
    : progress.Owns int64 scope origin := by
  intro type found
  obtain ⟨other, known, named, comes⟩ := complete.consistent.sound found
  rw [Source.unique free (Needed.source known free) (needed.source free) named] at comes
  exact comes

/-- The members of the groups of a needed message that is registered have types. -/
theorem Progress.Complete.typesNeededMember {message : Message} {group member : String}
    {type : NamedType} (complete : progress.Complete int64 scope) (free : CollisionFree scope)
    (needed : Needed scope (.node (.message message)))
    (found : progress.registry.get? message.name = some type) (present : message.HasGroup group)
    (named : member ∈ message.memberNames group)
    : ∃ type, progress.TypesMember int64 scope message member type := by
  have neededGroup : Needed scope (.group message group) := .shown needed (.group present)
  exact complete.typesMember (complete.comes free needed) (complete.comes free neededGroup) found
    present named

/-- The fields that such a message shows have types. -/
theorem Progress.Complete.typesField {message : Message} {field : Field} {type : NamedType}
    (complete : progress.Complete int64 scope) (free : CollisionFree scope)
    (needed : Needed scope (.node (.message message)))
    (found : progress.registry.get? message.name = some type) (shown : message.Shows field)
    : ∃ type, progress.TypesField int64 scope message field type := by
  cases shown with
  | single member alone =>
      obtain ⟨definition, typed⟩ :=
        complete.typesSlot (complete.comes free needed) found
          (Message.single_mem_slots.mpr ⟨member, alone⟩)
      cases typed with
      | single typed => exact ⟨_, typed⟩
  | grouped present member known =>
      obtain ⟨type, other, same, typed⟩ :=
        complete.typesNeededMember free needed found present member
      rw [known] at same
      cases same
      exact ⟨type, typed⟩

/-- What a reference in such a message denotes is registered. -/
theorem Progress.Complete.registers_reference {message : Message} {reference : String}
    {type : NamedType} (complete : progress.Complete int64 scope) (free : CollisionFree scope)
    (needed : Needed scope (.node (.message message)))
    (found : progress.registry.get? message.name = some type)
    (refers : (Request.values message).Refers reference)
    : ∃ node type,
        scope.find? reference = some node ∧ progress.reference? node.name = some type := by
  cases refers with
  | value shown keyless named =>
      obtain ⟨_, typed⟩ := complete.typesField free needed found shown
      cases typed with
      | wrapped based =>
          cases based with
          | scalar _ kind => cases kind.symm.trans named
          | entry keyed _ => cases keyless.symm.trans keyed
          | reference _ otherNamed resolves =>
              cases otherNamed.symm.trans named
              have sourced := complete.consistent.sourced free onlyListed_isOpen
              obtain ⟨node, denotes, reference⟩ :=
                resolves.denotes free sourced (needed.source free) shown.mem named
              exact ⟨node, _, denotes, reference⟩

/-- What the values of a needed message lead to is registered once its fields are. -/
theorem Progress.Complete.registers_value {message : Message} {origin : Origin} {type : NamedType}
    (complete : progress.Complete int64 scope) (free : CollisionFree scope)
    (needed : Needed scope (.node (.message message)))
    (found : progress.registry.get? message.name = some type)
    (allowed : (Request.values message).Allows scope origin)
    : ∃ type, progress.reference? origin.name = some type := by
  cases allowed with
  | entry shown keyed =>
      obtain ⟨_, typed⟩ := complete.typesField free needed found shown
      rw [Origin.name_entry]
      exact typed.entry keyed
  | found refers denotes =>
      obtain ⟨node, type, same, reference⟩ :=
        complete.registers_reference free needed found refers
      cases same.symm.trans denotes
      exact ⟨type, reference⟩

/-- Complete progress has registered all that the listed types lead to, by induction on how they
lead to it.
-/
theorem Progress.Complete.registers {origin : Origin} (complete : progress.Complete int64 scope)
    (free : CollisionFree scope) (needed : Needed scope origin)
    : ∃ type, progress.reference? origin.name = some type := by
  induction needed with
  | asked ask allowed =>
      cases ask
      cases allowed with
      | listed member => exact complete.listed member
      | found refers _ => cases refers
  | shown known allowed ih =>
      rcases ih with ⟨_, reference⟩
      obtain ⟨type, found, _⟩ := Progress.reference?_eq_some.mp reference
      cases allowed with
      | value allowed => exact complete.registers_value free known found allowed
      | found refers denotes =>
          cases refers with
          | shown refers =>
              exact complete.registers_value free known found (.found refers denotes)
      | group present =>
          obtain ⟨_, typed⟩ :=
            complete.typesSlot (complete.comes free known) found
              (Message.group_mem_slots.mpr present)
          cases typed with
          | group reference => exact ⟨_, reference⟩

/-- A conversion that is complete has looked up all that the listed types lead to. -/
theorem Progress.Complete.resolvable (complete : progress.Complete int64 scope)
    (free : CollisionFree scope)
    : Resolvable scope where
  finds := by
    intro message reference needed refers
    obtain ⟨_, registered⟩ := complete.registers free needed
    obtain ⟨_, found, _⟩ := Progress.reference?_eq_some.mp registered
    obtain ⟨node, _, denotes, _⟩ := complete.registers_reference free needed found refers
    exact ⟨node, denotes⟩
  members := by
    intro message group member needed present named
    obtain ⟨_, registered⟩ := complete.registers free needed
    obtain ⟨_, found, _⟩ := Progress.reference?_eq_some.mp registered
    obtain ⟨_, field, known, _⟩ := complete.typesNeededMember free needed found present named
    exact ⟨field, known⟩

/-- A conversion that is complete has met no two names that share the name of their type. -/
theorem Progress.Complete.no_clash {owner rival : Origin} (complete : progress.Complete int64 scope)
    (free : CollisionFree scope)
    : ¬ Clash scope owner rival := by
  intro clash
  obtain ⟨_, ownerReference⟩ := complete.registers free clash.neededOwner
  obtain ⟨_, rivalReference⟩ := complete.registers free clash.neededRival
  obtain ⟨_, foundOwner, _⟩ := Progress.reference?_eq_some.mp ownerReference
  obtain ⟨_, foundRival, _⟩ := Progress.reference?_eq_some.mp rivalReference
  refine clash.apart (complete.consistent.owner_unique foundOwner foundRival ?_)
  rw [(complete.comes free clash.neededOwner _ foundOwner).name,
    (complete.comes free clash.neededRival _ foundRival).name, clash.shared]

/-- A conversion that is complete shows that nothing stood in its way. -/
theorem Progress.Complete.convertible (complete : progress.Complete int64 scope)
    (free : CollisionFree scope)
    : Convertible scope where
  distinct := by
    intro first second neededFirst neededSecond same
    by_contra apart
    exact complete.no_clash free ⟨neededFirst, neededSecond, apart, same⟩
  members := (complete.resolvable free).members

-----------------------------------------------------------------------------------------
-- Why a conversion fails
-----------------------------------------------------------------------------------------

/-- A request for needed origins: for the listed types, or for the fields of a needed message. -/
inductive Request.Serviceable (scope : Scope) : Request → Prop
  | listed : Serviceable scope .listed
  | fields {message : Message} (needed : Needed scope (.node (.message message)))
    : Serviceable scope (.fields message)

theorem Request.Serviceable.leads {request : Request} (serviceable : request.Serviceable scope)
    : request.Leads scope onlyListed := by
  cases serviceable with
  | listed => exact fun origin allowed => .asked rfl allowed
  | fields needed => exact fun origin allowed => .shown needed allowed

/-- The error blocks a request for needed origins at some point of a conversion. -/
def Obstructed (int64 : Integer64) (scope : Scope) (error : ConversionError) : Prop :=
  ∃ request progress,
    Request.Serviceable scope request
    ∧ Progress.Consistent progress int64 scope onlyListed
    ∧ Blocked scope request progress error

/-- Where what is needed can be looked up, only a clash is in the way; the cases are the reasons for
which a request could be blocked.
-/
theorem Obstructed.clash {error : ConversionError} (obstructed : Obstructed int64 scope error)
    (free : CollisionFree scope) (resolvable : Resolvable scope)
    : ∃ owner rival,
        Clash scope owner rival
        ∧ error = .malformed (.sharedTypeName owner.name rival.name (typeName rival.name)) := by
  obtain ⟨request, progress, serviceable, consistent, blocked⟩ := obstructed
  cases blocked with
  | unknownType refers unregistered undeclared =>
      cases serviceable with
      | listed => cases refers
      | fields needed =>
          cases refers with
          | shown refers =>
              obtain ⟨_, found⟩ := resolvable.finds needed refers
              cases undeclared.symm.trans found
  | unknownMember owner present named absent =>
      cases serviceable with
      | listed => cases owner
      | fields needed =>
          cases owner
          obtain ⟨_, found⟩ := resolvable.members needed present named
          cases absent.symm.trans found
  | sharedTypeName allowed claimed rival =>
      obtain ⟨type, found, named⟩ := consistent.claims.mp claimed
      obtain ⟨origin, known, rfl, comes⟩ := consistent.sound found
      rw [comes.name] at named
      exact ⟨origin, _, ⟨known, serviceable.leads _ allowed, rival, named⟩, rfl⟩
  | @takenByMember message group node owner present allowed taken =>
      cases serviceable with
      | listed => cases owner
      | fields needed =>
          cases owner
          have neededNode : Needed scope (.node node) := .shown needed (.value allowed)
          have neededGroup : Needed scope (.group message group) := .shown needed (.group present)
          have same := Source.unique free (neededNode.source free) (neededGroup.source free) taken
          cases same

theorem build_obstructed {error : ConversionError}
    (failure : exec (build scope) {} = (.error error, after))
    : Obstructed int64 scope error := by
  have serves := @build_serves int64 scope {}
  rw [failure] at serves
  cases serves with
  | error steps blocked =>
      have consistent := Registers.consistent steps Request.Serviceable.listed.leads
        Progress.consistent_start
      exact ⟨.listed, after, .listed, consistent, blocked⟩

/-- Forcing a name fails only if a request for the fields of a needed message is blocked. -/
theorem Forced.obstructed {name : String} {error : ConversionError}
    (forced : Forced int64 scope before name (.error error, after))
    (underway : before.Underway int64 scope)
    : Obstructed int64 scope error := by
  cases forced with
  | abandoned queued steps blocked =>
      obtain ⟨_, needed, _⟩ := underway.consistent.queued queued
      have serviceable : (Request.fields _).Serviceable scope := .fields needed
      have consistent := Registers.consistent steps serviceable.leads
        (underway.consistent.unqueue name)
      exact ⟨_, after, serviceable, consistent, blocked⟩

/-- Forcing the first names fails only for such a reason, by induction on the outcome. -/
theorem ForcedFirst.obstructed {count : Nat} {error : ConversionError}
    {outcome : Except ConversionError Unit × Progress}
    (forced : ForcedFirst int64 scope count before outcome) (failure : outcome.1 = .error error)
    (underway : before.Underway int64 scope)
    : Obstructed int64 scope error := by
  induction forced with
  | spent before => cases failure
  | done none_ => cases failure
  | next first run rest ih => exact ih failure ((forced_of_run run).underway underway)
  | failed first run =>
      cases failure
      exact (forced_of_run run).obstructed underway

/-- A conversion fails only for such a reason. -/
theorem convert_obstructed {error : ConversionError} (failure : convert int64 scope = .error error)
    : Obstructed int64 scope error := by
  cases builds : exec (build scope : Pass Unit) {} with
  | mk result built =>
      cases result with
      | error other =>
          rw [convert_eq, conversion, exec_bind_error builds] at failure
          cases failure
          exact build_obstructed builds
      | ok value =>
          rw [convert_eq, conversion, exec_bind_ok builds, exec_schemas] at failure
          cases run : exec (materialize int64 scope) built with
          | mk result last =>
              rw [run] at failure
              cases result with
              | ok value => cases failure
              | error other =>
                  cases failure
                  exact (materialized_of_run run).obstructed rfl (build_underway builds)

/-- Where what is needed can be looked up, a conversion succeeds unless there is a clash. -/
theorem convert_succeeds (free : CollisionFree scope) (resolvable : Resolvable scope)
    (distinct : ∀ owner rival, ¬ Clash scope owner rival)
    : ∃ definitions, convert int64 scope = .ok definitions := by
  cases outcome : convert int64 scope with
  | ok definitions => exact ⟨definitions, rfl⟩
  | error error =>
      obtain ⟨owner, rival, clash, _⟩ := (convert_obstructed outcome).clash free resolvable
      exact absurd clash (distinct owner rival)

/-- If there is a clash, the conversion fails with the error that names one. -/
theorem convert_fails_of_clash {owner rival : Origin} (free : CollisionFree scope)
    (resolvable : Resolvable scope) (clash : Clash scope owner rival)
    : ∃ owner rival,
        Clash scope owner rival
        ∧ convert int64 scope
          = .error (.malformed (.sharedTypeName owner.name rival.name (typeName rival.name))) := by
  cases outcome : convert int64 scope with
  | ok definitions => exact absurd clash ((convert_complete outcome).no_clash free)
  | error error =>
      obtain ⟨first, second, other, rfl⟩ := (convert_obstructed outcome).clash free resolvable
      exact ⟨first, second, other, rfl⟩

-----------------------------------------------------------------------------------------
-- Nothing is in the way of a convertible scope
-----------------------------------------------------------------------------------------

section

variable (free : CollisionFree scope) (direct : DirectReferences scope)
  (convertible : Convertible scope)

include free direct convertible

/-- Direct references are found, so all that is needed can be looked up. -/
theorem Convertible.resolvable : Resolvable scope where
  finds := by
    intro message reference needed refers
    cases refers with
    | value shown _ named =>
        have referenced := (needed.source free).referenced shown.mem named
        obtain ⟨node, denotes, _⟩ := find?_of_direct free direct referenced
        exact ⟨node, denotes⟩
  members := convertible.members

theorem not_obstructed (error : ConversionError) : ¬ Obstructed int64 scope error := by
  intro obstructed
  obtain ⟨_, _, clash, _⟩ := obstructed.clash free (convertible.resolvable free direct)
  exact clash.apart (convertible.distinct clash.neededOwner clash.neededRival clash.shared)

/-- Building succeeds. -/
theorem build_succeeds
    : ∃ built, exec (build scope : Pass Unit) {} = (.ok ⟨⟩, built) := by
  cases run : exec (build scope : Pass Unit) {} with
  | mk result built =>
      cases result with
      | ok value => exact ⟨built, rfl⟩
      | error error =>
          exact absurd (@build_obstructed .text _ _ _ run)
            (not_obstructed free direct convertible error)

/-- Forcing a name succeeds while a conversion is under way. -/
theorem force_succeeds (name : String) (underway : before.Underway int64 scope)
    : ∃ after, exec (force int64 scope name) before = (.ok ⟨⟩, after) := by
  cases run : exec (force int64 scope name) before with
  | mk result after =>
      cases result with
      | ok value => exact ⟨after, rfl⟩
      | error error =>
          exact absurd ((forced_of_run run).obstructed underway)
            (not_obstructed free direct convertible error)

/-- Converting all deferred fields completes a conversion that is under way. -/
theorem materialize_succeeds (underway : before.Underway int64 scope)
    : ∃ after, exec (materialize int64 scope) before = (.ok ⟨⟩, after)
        ∧ after.Complete int64 scope := by
  cases run : exec (materialize int64 scope) before with
  | mk result after =>
      cases result with
      | ok value => exact ⟨after, rfl, underway.complete run⟩
      | error error =>
          exact absurd ((materialized_of_run run).obstructed rfl underway)
            (not_obstructed free direct convertible error)

end

end ProtoSchema.GraphQL
