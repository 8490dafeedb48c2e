import ProtoSchema.Proofs.GraphQL.Deferral

/-! What holds at the end of a conversion that succeeds: the listed types are registered, with nothing
else under their names, and every registered object has its fields.
-/

namespace ProtoSchema.GraphQL

open Schema
open Execution

variable {int64 : Integer64} {scope : Scope} {request : Request} {asked : Request → Prop}
  {before after : Progress} {origin : Origin}

/-- Nothing but the listed types is asked for. -/
def onlyListed (request : Request) : Prop :=
  request = .listed

/-- What is registered under the name of the origin comes from it, and so does what is deferred. -/
structure Progress.Holds (progress : Progress) (int64 : Integer64) (scope : Scope) (origin : Origin)
    : Prop where
  registered
    : ∃ type,
        progress.registry.get? origin.name = some type ∧ progress.Comes int64 scope origin type
  deferred
    : ∀ message,
        progress.deferred.get? origin.name = some message → origin.message? = some message

/-- A conversion of the listed types is under way: under the name of each there is one of them, and
the objects without fields are those that are deferred.
-/
structure Progress.Underway (progress : Progress) (int64 : Integer64) (scope : Scope) : Prop where
  consistent : progress.Consistent int64 scope onlyListed
  held
    : ∀ node ∈ scope.listed,
        ∃ owner ∈ scope.listed,
          owner.name = node.name ∧ progress.Holds int64 scope (.node owner)
  accounts : ∃ taken, progress.Accounts taken []

/-- The listed types are registered. -/
theorem Progress.Underway.listed {progress : Progress} (underway : progress.Underway int64 scope)
    {node : Node} (member : node ∈ scope.listed)
    : ∃ type, progress.reference? node.name = some type := by
  obtain ⟨owner, _, named, held⟩ := underway.held node member
  obtain ⟨type, found, _⟩ := held.registered
  exact ⟨_, Progress.reference?_eq_some.mpr ⟨type, named ▸ found, rfl⟩⟩

/-- A conversion of the listed types is complete: no object is left without its fields. -/
structure Progress.Complete (progress : Progress) (int64 : Integer64) (scope : Scope) : Prop
    extends progress.Underway int64 scope where
  settled : ∀ name, ¬ progress.Pending name

-----------------------------------------------------------------------------------------
-- Origins keep what they hold
-----------------------------------------------------------------------------------------

/-- An origin that a type is entered for holds its name. -/
theorem Progress.Consistent.holds_enter {type : NamedType}
    (consistent : before.Consistent int64 scope asked) (made : before.Makes int64 scope origin type)
    (fresh : before.registry.get? origin.name = none)
    (keeps : before.Keeps (before.enter origin type))
    : (before.enter origin type).Holds int64 scope origin := by
  refine ⟨⟨type, ?_, .made (made.keep keeps)⟩, fun message queued => ?_⟩
  · rw [Progress.registry_enter, if_pos rfl]
  · rw [Progress.deferred_enter] at queued
    split at queued
    · exact queued
    · cases fresh.symm.trans (consistent.queued queued).2.2

/-- A registration is under a new name, so it leaves alone what is held. -/
theorem Progress.Holds.registration (holds : before.Holds int64 scope origin)
    (step : Registration int64 scope request before after)
    : after.Holds int64 scope origin := by
  obtain ⟨type, found, comes⟩ := holds.registered
  refine ⟨⟨type, step.retains found, comes.keep (Registers.keeps (.single step))⟩, ?_⟩
  cases step with
  | @enter entered other allowed made fresh free =>
      intro message queued
      rw [Progress.deferred_enter, if_neg] at queued
      · exact holds.deferred message queued
      · rintro ⟨same, _⟩
        cases fresh.symm.trans (same ▸ found)

theorem Registers.holds (steps : Registers int64 scope request before after)
    (holds : before.Holds int64 scope origin)
    : after.Holds int64 scope origin := by
  induction steps with
  | refl => exact holds
  | tail _ step ih => exact ih.registration step

/-- What is registered for the listed types is held by them, by induction on the registrations. -/
theorem Registers.held (steps : Registers int64 scope .listed {} after) {name : String}
    {type : NamedType} (found : after.registry.get? name = some type)
    : ∃ owner ∈ scope.listed, owner.name = name ∧ after.Holds int64 scope (.node owner) := by
  induction steps generalizing name type with
  | refl => simp at found
  | tail earlier step ih =>
      have consistent := Registers.consistent earlier
        (fun _ allowed => Known.asked (show onlyListed .listed from rfl) allowed)
        Progress.consistent_start
      have keeps := Registers.keeps (.single step)
      cases step with
      | enter allowed made fresh free =>
          rw [Progress.registry_enter] at found
          split at found
          · next same =>
              subst same
              cases allowed with
              | listed member => exact ⟨_, member, rfl, consistent.holds_enter made fresh keeps⟩
              | found refers _ => cases refers
          · obtain ⟨owner, member, named, held⟩ := ih found
            exact ⟨owner, member, named, held.registration (.enter allowed made fresh free)⟩

theorem Progress.Holds.unqueue (holds : before.Holds int64 scope origin) (name : String)
    : (before.unqueue name).Holds int64 scope origin := by
  obtain ⟨type, found, comes⟩ := holds.registered
  refine ⟨⟨type, found, comes.keep fun _ _ found => found⟩, fun message queued => ?_⟩
  rw [Progress.deferred_unqueue] at queued
  split at queued
  · cases queued
  · exact holds.deferred message queued

/-- Forcing keeps what is held: the fields that are filled in are those of the message that was
deferred under the name.
-/
theorem Forced.holds {name : String} {result : Except ConversionError Unit}
    (forced : Forced int64 scope before name (result, after))
    (consistent : before.Consistent int64 scope asked) (holds : before.Holds int64 scope origin)
    : after.Holds int64 scope origin := by
  cases forced with
  | idle absent => exact holds
  | abandoned queued steps blocked => exact Registers.holds steps (holds.unqueue name)
  | @converted message fields middle queued steps typed explains =>
      obtain ⟨rfl, _, registered⟩ := consistent.queued queued
      have kept := Registers.holds steps (holds.unqueue message.name)
      refine ⟨?registered, kept.deferred⟩
      case registered =>
        obtain ⟨type, found, comes⟩ := kept.registered
        have keeps := middle.keeps_fill message.name fields
        rw [Progress.registry_fill]
        by_cases same : origin.name = message.name
        · have source : origin = .node (.message message) :=
            Origin.message?_eq_some.mp (holds.deferred message (same ▸ queued))
          refine ⟨(objectType message).withFields fields, ?_, source ▸ .filled ?_⟩
          · rw [if_pos same, same, Registers.retains steps registered]
            rfl
          · exact typed.imp fun _ _ typed => typed.keep keeps
        · rw [if_neg same]
          exact ⟨type, found, comes.keep keeps⟩

-----------------------------------------------------------------------------------------
-- Conversions under way
-----------------------------------------------------------------------------------------

/-- Building starts a conversion of the listed types. -/
theorem build_underway {built : Progress} (success : exec (build scope) {} = (.ok ⟨⟩, built))
    : built.Underway int64 scope := by
  have serves := @build_serves int64 scope {}
  rw [success] at serves
  have asked : onlyListed .listed := rfl
  have steps : Steps int64 scope onlyListed {} built := serves.steps asked
  refine ⟨Steps.consistent steps Progress.consistent_start, ?held,
    [], serves.accounts Progress.accounts_start⟩
  case held =>
    intro node member
    cases serves with
    | ok registers listed =>
        obtain ⟨_, reference⟩ := listed node member
        obtain ⟨_, found, _⟩ := Progress.reference?_eq_some.mp reference
        exact Registers.held registers found

/-- A successful conversion of fields keeps a conversion under way. -/
theorem Forced.underway {name : String}
    (forced : Forced int64 scope before name (.ok ⟨⟩, after))
    (underway : before.Underway int64 scope)
    : after.Underway int64 scope where
  consistent := forced.consistent underway.consistent
  held := by
    intro node member
    obtain ⟨owner, listed, named, held⟩ := underway.held node member
    exact ⟨owner, listed, named, forced.holds underway.consistent held⟩
  accounts := by
    obtain ⟨taken, accounts⟩ := underway.accounts
    exact ⟨_, forced.accounts underway.consistent accounts⟩

/-- A conversion under way is complete once all deferred fields are converted. -/
theorem Progress.Underway.complete (underway : before.Underway int64 scope)
    (success : exec (materialize int64 scope) before = (.ok ⟨⟩, after))
    : after.Complete int64 scope := by
  have last : after.Underway int64 scope :=
    (materialized_of_run success).preserves (fun _ _ _ step => step.underway) underway
  obtain ⟨taken, accounts⟩ := last.accounts
  refine ⟨last, fun name => ?_⟩
  rw [accounts.pending, materialize_ok success]
  simp

/-- A conversion that succeeds ends in complete progress. -/
theorem convert_complete {definitions : List String}
    (success : convert int64 scope = .ok definitions)
    : (finalProgress int64 scope).Complete int64 scope := by
  obtain ⟨built, builds, forced, _⟩ := convert_ok success
  exact (build_underway builds).complete forced

-----------------------------------------------------------------------------------------
-- What complete progress knows of a message
-----------------------------------------------------------------------------------------

variable {progress : Progress} {message : Message} {type : NamedType}

/-- What is registered under the name of the origin comes from it. -/
def Progress.Owns (progress : Progress) (int64 : Integer64) (scope : Scope) (origin : Origin)
    : Prop :=
  ∀ type, progress.registry.get? origin.name = some type → progress.Comes int64 scope origin type

/-- The entries of a map that has a type are registered, by cases on its base type. -/
theorem Progress.TypesField.entry {field : Field} {key : Scalar} {type : TypeRef}
    (typed : progress.TypesField int64 scope message field type) (keyed : field.mapKey = some key)
    : ∃ type, progress.reference? (MapEntry.name message field key) = some type := by
  cases typed with
  | wrapped based =>
      cases based with
      | scalar keyless _ => cases keyless.symm.trans keyed
      | reference keyless _ _ => cases keyless.symm.trans keyed
      | entry otherKeyed found =>
          cases otherKeyed.symm.trans keyed
          exact ⟨_, found⟩

/-- The properties of a registered message have fields. -/
theorem Progress.Complete.typesSlot (complete : progress.Complete int64 scope)
    (owns : progress.Owns int64 scope (.node (.message message)))
    (found : progress.registry.get? message.name = some type) {slot : Message.Slot}
    (member : slot ∈ message.slots)
    : ∃ field, progress.TypesSlot int64 scope message slot field := by
  cases owns type found with
  | made made =>
      cases made
      exact absurd ⟨_, found, objectType_isDeferred message⟩ (complete.settled message.name)
  | filled typed =>
      obtain ⟨field, _, typed⟩ := related_to_mem typed member
      exact ⟨field, typed⟩

/-- The members of a group of such a message have types. -/
theorem Progress.Complete.typesMember {group member : String}
    (complete : progress.Complete int64 scope)
    (owns : progress.Owns int64 scope (.node (.message message)))
    (ownsGroup : progress.Owns int64 scope (.group message group))
    (found : progress.registry.get? message.name = some type) (present : message.HasGroup group)
    (named : member ∈ message.memberNames group)
    : ∃ type, progress.TypesMember int64 scope message member type := by
  obtain ⟨_, typed⟩ := complete.typesSlot owns found (Message.group_mem_slots.mpr present)
  cases typed with
  | group reference =>
      obtain ⟨union, registered, _⟩ := Progress.reference?_eq_some.mp reference
      cases ownsGroup union registered with
      | made made =>
          cases made with
          | group typed =>
              obtain ⟨type, _, typed⟩ := related_to_mem typed named
              exact ⟨type, typed⟩

end ProtoSchema.GraphQL
