import ProtoSchema.Proofs.GraphQL.ConversionLog
import ProtoSchema.Proofs.GraphQL.Materialization

/-! What becomes of the objects that are registered. They are deferred until they are taken for the
conversion of their fields, each once. Where that fails, they are neither converted nor deferred
again, and what is printed later shows them without fields.
-/

namespace ProtoSchema.GraphQL

open Schema
open Execution

variable {int64 : Integer64} {scope : Scope} {request : Request} {asked : Request → Prop}
  {before middle after : Progress} {taken failed : List String}

/-- The type is an object whose fields are deferred. -/
def NamedType.IsDeferred (type : NamedType) : Prop :=
  type.object?.map ObjectType.fields = some .deferred

/-- The type is an object, with or without its fields. -/
def NamedType.IsObject (type : NamedType) : Prop :=
  type.object?.isSome

/-- An object is registered under the name. -/
def Progress.HasObject (progress : Progress) (name : String) : Prop :=
  ∃ type, progress.registry.get? name = some type ∧ type.IsObject

/-- An object without its fields is registered under the name. -/
def Progress.Pending (progress : Progress) (name : String) : Prop :=
  ∃ type, progress.registry.get? name = some type ∧ type.IsDeferred

/-- The objects without fields are exactly the deferred ones. -/
def Progress.DeferralIntact (progress : Progress) : Prop :=
  ∀ name, progress.Pending name ↔ name ∈ progress.deferred.keys

/-- The name at which forcing the first names fails. -/
def firstFailure (int64 : Integer64) (scope : Scope) : Nat → Progress → Option String
  | 0, _ => none
  | count + 1, progress =>
      match progress.deferred.keys.head? with
      | none => none
      | some name =>
          match exec (force int64 scope name) progress with
          | (.error _, _) => some name
          | (.ok _, next) => firstFailure int64 scope count next

/-- The name at which a call fails to convert the fields of a message. -/
def Call.failure? (int64 : Integer64) (scope : Scope) (progress : Progress)
    : Call → Option String
  | .build => none
  | .resolve _ => none
  | .fields reference =>
      match exec (force int64 scope (Name.dropLeadingDots reference)) progress with
      | (.error _, _) => some (Name.dropLeadingDots reference)
      | (.ok _, _) => none
  | .materialize => firstFailure int64 scope (workBound scope progress) progress
  | .schemas => firstFailure int64 scope (workBound scope progress) progress

/-- The names at which calls one after the other fail to convert the fields of a message. -/
def Progress.failures (int64 : Integer64) (scope : Scope)
    : Progress → List Call → List String
  | _, [] => []
  | progress, call :: rest =>
      (call.failure? int64 scope progress).toList
        ++ Progress.failures int64 scope (call.after int64 scope progress) rest

/-- What became of the registered objects. They are deferred or were taken for the conversion of their
fields, each of the latter once; those without fields are deferred, or their conversion failed.
-/
structure Progress.Accounts (progress : Progress) (taken failed : List String) : Prop where
  objects : ∀ {name}, progress.HasObject name ↔ name ∈ progress.deferred.keys ∨ name ∈ taken
  pending : ∀ {name}, progress.Pending name ↔ name ∈ progress.deferred.keys ∨ name ∈ failed
  failures : failed ⊆ taken
  apart : ∀ {name}, name ∈ taken → name ∉ progress.deferred.keys
  once : taken.Nodup

theorem Progress.accounts_start : Progress.Accounts {} [] [] where
  objects := by simp [Progress.HasObject, OrderedMap.mem_keys_iff]
  pending := by simp [Progress.Pending, OrderedMap.mem_keys_iff]
  failures := List.nil_subset _
  apart := by simp
  once := List.nodup_nil

theorem objectType_isDeferred (message : Message) : (objectType message).IsDeferred := by
  unfold objectType
  split <;> rfl

/-- A type that was given fields does not lack them. -/
theorem withFields_not_isDeferred (type : NamedType) (fields : List FieldDefinition)
    : ¬ (type.withFields fields).IsDeferred := by
  cases type <;> simp [NamedType.withFields, NamedType.IsDeferred, NamedType.object?]

theorem isObject_withFields (type : NamedType) (fields : List FieldDefinition)
    : (type.withFields fields).IsObject ↔ type.IsObject := by
  cases type <;> rfl

/-- Objects are made from messages. -/
theorem Progress.Makes.isObject_iff {origin : Origin} {type : NamedType}
    (made : before.Makes int64 scope origin type)
    : type.IsObject ↔ origin.message?.isSome := by
  cases made with
  | enumeration content => simp [NamedType.IsObject, NamedType.object?, Origin.message?]
  | message content =>
      unfold objectType
      split <;> simp [NamedType.IsObject, NamedType.object?, Origin.message?]
  | group typed => simp [NamedType.IsObject, NamedType.object?, Origin.message?]

/-- A type lacks its fields when it is made exactly if they are deferred with it. -/
theorem Progress.Makes.isDeferred_iff {origin : Origin} {type : NamedType}
    (made : before.Makes int64 scope origin type)
    : type.IsDeferred ↔ origin.message?.isSome := by
  cases made with
  | enumeration content => simp [NamedType.IsDeferred, NamedType.object?, Origin.message?]
  | message content => simp [objectType_isDeferred, Origin.message?]
  | group typed => simp [NamedType.IsDeferred, NamedType.object?, Origin.message?]

/-- Entering a type defers a message if it is that of a message, and keeps what is deferred. -/
theorem Progress.mem_keys_enter {progress : Progress} {origin : Origin} {type : NamedType}
    {name : String}
    : name ∈ (progress.enter origin type).deferred.keys
      ↔ (name = origin.name ∧ origin.message?.isSome) ∨ name ∈ progress.deferred.keys := by
  rw [OrderedMap.mem_keys_iff, OrderedMap.mem_keys_iff, Progress.deferred_enter]
  split
  · next entered => simp [entered, ← Option.isSome_iff_exists]
  · next other => simp only [other, false_or]

/-- What is registered once a type was entered under a new name, if the types in question are made
from messages only.
-/
theorem Progress.exists_enter {holds : NamedType → Prop} {origin : Origin} {type : NamedType}
    {name : String} (fresh : before.registry.get? origin.name = none)
    (made : holds type ↔ origin.message?.isSome)
    : (∃ other, (before.enter origin type).registry.get? name = some other ∧ holds other)
      ↔ (name = origin.name ∧ origin.message?.isSome)
        ∨ ∃ other, before.registry.get? name = some other ∧ holds other := by
  rw [Progress.registry_enter]
  by_cases same : name = origin.name
  · subst same
    simp [fresh, made]
  · simp [same]

theorem Progress.mem_keys_unqueue {progress : Progress} {name other : String}
    : other ∈ (progress.unqueue name).deferred.keys
      ↔ other ≠ name ∧ other ∈ progress.deferred.keys := by
  rw [OrderedMap.mem_keys_iff, OrderedMap.mem_keys_iff, Progress.deferred_unqueue]
  by_cases same : other = name <;> simp [same]

/-- A registration defers exactly the objects that it adds, so it takes none. -/
theorem Registration.accounts (step : Registration int64 scope request before after)
    (accounts : before.Accounts taken failed)
    : after.Accounts taken failed := by
  cases step with
  | @enter origin type allowed made fresh free =>
      have objects (name : String) : (before.enter origin type).HasObject name
          ↔ (name = origin.name ∧ origin.message?.isSome) ∨ before.HasObject name :=
        Progress.exists_enter fresh made.isObject_iff
      have pending (name : String) : (before.enter origin type).Pending name
          ↔ (name = origin.name ∧ origin.message?.isSome) ∨ before.Pending name :=
        Progress.exists_enter fresh made.isDeferred_iff
      refine ⟨?objects, ?pending, accounts.failures, ?apart, accounts.once⟩
      case objects =>
        intro name
        rw [objects, Progress.mem_keys_enter, accounts.objects, or_assoc]
      case pending =>
        intro name
        rw [pending, Progress.mem_keys_enter, accounts.pending, or_assoc]
      case apart =>
        -- The entered name is new, so it was not taken before.
        intro name member
        rw [Progress.mem_keys_enter, not_or]
        refine ⟨fun entered => ?_, accounts.apart member⟩
        obtain ⟨old, found, _⟩ := accounts.objects.mpr (.inr member)
        cases fresh.symm.trans (entered.1 ▸ found)

theorem Registers.accounts (steps : Registers int64 scope request before after)
    (accounts : before.Accounts taken failed)
    : after.Accounts taken failed := by
  induction steps with
  | refl => exact accounts
  | tail _ step ih => exact step.accounts ih

theorem Serves.accounts {α : Type} {holds : α → Progress → Prop}
    {outcome : Except ConversionError α × Progress}
    (serves : Serves int64 scope request before holds outcome)
    (accounts : before.Accounts taken failed)
    : outcome.2.Accounts taken failed :=
  Registers.accounts serves.registers accounts

/-- A name that is taken off the queue counts as failed until its message has its fields. -/
theorem Progress.Accounts.unqueue {name : String} (accounts : before.Accounts taken failed)
    (queued : name ∈ before.deferred.keys)
    : (before.unqueue name).Accounts (taken ++ [name]) (failed ++ [name]) := by
  have queue {names : List String} (other : String)
      : (other ∈ before.deferred.keys ∨ other ∈ names)
        ↔ (other ∈ (before.unqueue name).deferred.keys ∨ other ∈ names ++ [name]) := by
    rw [Progress.mem_keys_unqueue, List.mem_append, List.mem_singleton]
    by_cases same : other = name
    · simp [same, queued]
    · simp [same]
  refine ⟨accounts.objects.trans (queue _), accounts.pending.trans (queue _), ?failures, ?apart,
    ?once⟩
  case failures =>
    have earlier : failed ⊆ taken ++ [name] :=
      List.Subset.trans accounts.failures (List.subset_append_left taken [name])
    exact List.append_subset.mpr ⟨earlier, List.subset_append_right taken [name]⟩
  case apart =>
    intro other member
    rw [Progress.mem_keys_unqueue]
    rintro ⟨kept, deferred⟩
    rcases List.mem_append.mp member with earlier | last
    · exact accounts.apart earlier deferred
    · exact kept (List.mem_singleton.mp last)
  case once =>
    have new : name ∉ taken := fun earlier => accounts.apart earlier queued
    exact List.nodup_append_comm.mp (List.nodup_cons.mpr ⟨new, accounts.once⟩)

/-- Filling in the fields of a message takes its name back from the failed ones. -/
theorem Progress.Accounts.fill {message : Message} {fields : List FieldDefinition}
    (accounts : before.Accounts taken (failed ++ [message.name]))
    (registered : before.registry.get? message.name = some (objectType message))
    (absent : message.name ∉ failed)
    : (before.fill message.name fields).Accounts taken failed := by
  have objects (other : String) : (before.fill message.name fields).HasObject other
      ↔ before.HasObject other := by
    simp only [Progress.HasObject, Progress.registry_fill]
    split
    · simp [Option.map_eq_some_iff, isObject_withFields]
    · rfl
  have pending (other : String) : (before.fill message.name fields).Pending other
      ↔ other ≠ message.name ∧ before.Pending other := by
    simp only [Progress.Pending, Progress.registry_fill]
    by_cases same : other = message.name
    · subst same
      simp [registered, withFields_not_isDeferred]
    · simp [same]
  have subset := List.append_subset.mp accounts.failures
  refine ⟨(objects _).trans accounts.objects, ?pending, subset.1, accounts.apart, accounts.once⟩
  case pending =>
    intro other
    rw [pending, accounts.pending, List.mem_append, List.mem_singleton]
    by_cases same : other = message.name
    · subst same
      simp only [ne_eq, not_true, false_and, absent, or_false, false_iff]
      exact accounts.apart (subset.2 (List.mem_singleton.mpr rfl))
    · simp only [ne_eq, same, not_false_iff, true_and, or_false]
      exact Iff.rfl

/-- Forcing a name takes what is deferred under it, which fails if its conversion does; the cases are
those of the outcome.
-/
theorem Forced.accounts {name : String} {result : Except ConversionError Unit}
    (forced : Forced int64 scope before name (result, after))
    (consistent : before.Consistent int64 scope asked) (accounts : before.Accounts taken failed)
    : after.Accounts (taken ++ (before.deferred.get? name).toList.map Message.name)
        (match result with
        | .ok _ => failed
        | .error _ => failed ++ [name]) := by
  cases forced with
  | idle absent => simpa [absent] using accounts
  | abandoned queued steps blocked =>
      have unqueued := accounts.unqueue (OrderedMap.mem_keys_iff.mpr ⟨_, queued⟩)
      obtain ⟨named, _, _⟩ := consistent.queued queued
      rw [queued, Option.toList_some, List.map_singleton, named]
      exact Registers.accounts steps unqueued
  | @converted message fields middle queued steps typed explains =>
      have member := OrderedMap.mem_keys_iff.mpr ⟨_, queued⟩
      obtain ⟨rfl, known, registered⟩ := consistent.queued queued
      rw [queued, Option.toList_some, List.map_singleton]
      refine Progress.Accounts.fill (Registers.accounts steps (accounts.unqueue member)) ?_ ?_
      · exact Registers.retains steps registered
      · exact fun earlier => accounts.apart (accounts.failures earlier) member

-----------------------------------------------------------------------------------------
-- Calls
-----------------------------------------------------------------------------------------

/-- Forcing the first names takes what it converts, and fails at one name at most; by induction on the
outcome.
-/
theorem ForcedFirst.accounts {count : Nat} {outcome : Except ConversionError Unit × Progress}
    (forced : ForcedFirst int64 scope count before outcome)
    (consistent : before.Consistent int64 scope asked) (accounts : before.Accounts taken failed)
    : outcome.2.Accounts
        (taken
          ++ ((forceFirst int64 scope count : Logged Unit).conversions before).map Message.name)
        (failed ++ (firstFailure int64 scope count before).toList) := by
  induction forced generalizing taken with
  | spent before =>
      rw [firstFailure, Option.toList_none, List.append_nil]
      simpa using accounts
  | done none_ =>
      rw [conversions_forceFirst_succ, firstFailure, none_]
      simpa using accounts
  | next first run rest ih =>
      have step := forced_of_run run
      have later := ih (step.consistent consistent) (step.accounts consistent accounts)
      simp only [conversions_forceFirst_succ, firstFailure, first, run, Logged.conversionsAfter]
      rwa [List.map_append, ← List.append_assoc]
  | failed first run =>
      have last := (forced_of_run run).accounts consistent accounts
      simp only [conversions_forceFirst_succ, firstFailure, first, run, Logged.conversionsAfter]
      rwa [List.append_nil]

/-- Where forcing the first names succeeds, it does not fail at any, by induction on the outcome.
-/
theorem ForcedFirst.no_failure {count : Nat} {outcome : Except ConversionError Unit × Progress}
    (forced : ForcedFirst int64 scope count before outcome) (success : outcome.1 = .ok ⟨⟩)
    : firstFailure int64 scope count before = none := by
  induction forced with
  | spent before => rfl
  | done none_ => rw [firstFailure, none_]
  | next first run rest ih =>
      simp only [firstFailure, first, run]
      exact ih success
  | failed first run => cases success

/-- A call takes what it converts, and fails at one name at most; by cases on the call. -/
theorem Call.accounts (call : Call) (consistent : before.Consistent int64 scope asked)
    (accounts : before.Accounts taken failed)
    : (call.after int64 scope before).Accounts
        (taken ++ ((call.pass int64 scope : Logged Unit).conversions before).map Message.name)
        (failed ++ (call.failure? int64 scope before).toList) := by
  have materialized := (@exec_materialize int64 scope before).accounts consistent accounts
  rw [← conversions_materialize] at materialized
  cases call with
  | build =>
      rw [Call.after, Call.pass, Call.pass, silent_build.conversions, Call.failure?]
      simpa using (@build_serves int64 scope before).accounts accounts
  | resolve reference =>
      have serves := @resolve_serves int64 scope _ reference (.reference reference) before
      rw [Call.after, Call.pass, exec_discard_snd, Call.pass,
        (silent_resolve reference).discard.conversions, Call.failure?]
      simpa using serves.accounts accounts
  | fields reference =>
      obtain ⟨erases, conversions⟩ := @appends_fields int64 scope reference
      rw [Call.after, Call.pass, exec_discard_snd, exec_fields_snd, Call.pass, erases.discard.2,
        conversions, conversions_force, Call.failure?]
      cases run : exec (force int64 scope (Name.dropLeadingDots reference)) before with
      | mk result middle =>
          have step := (forced_of_run run).accounts consistent accounts
          cases result with
          | ok value => simpa using step
          | error error => exact step
  | materialize => exact materialized
  | schemas =>
      obtain ⟨erases, conversions⟩ := @appends_schemas int64 scope
      rw [Call.after, Call.pass, exec_discard_snd, exec_schemas_snd, Call.pass, erases.discard.2,
        conversions]
      exact materialized

/-- Every request may be asked for. -/
def anyRequest (_ : Request) : Prop :=
  True

/-- After calls one after the other, the log lists what was taken; by induction on the calls. -/
theorem Logged.afterCalls_accounts (state : Progress × List Message) (calls : List Call)
    (consistent : state.1.Consistent int64 scope anyRequest)
    (accounts : state.1.Accounts (state.2.map Message.name) failed)
    : (Logged.afterCalls int64 scope state calls).1.Accounts
        ((Logged.afterCalls int64 scope state calls).2.map Message.name)
        (failed ++ state.1.failures int64 scope calls) := by
  induction calls generalizing state failed with
  | nil =>
      rw [Progress.failures, List.append_nil]
      exact accounts
  | cons call rest ih =>
      have steps := @Call.steps int64 scope anyRequest call (fun _ _ => trivial) state.1
      have step := call.accounts consistent accounts
      rw [← List.map_append] at step
      rw [Logged.afterCalls, List.foldl_cons, Logged.after_eq, Progress.failures,
        ← List.append_assoc]
      exact ih _ (Steps.consistent steps consistent) step

/-- What became of the objects that calls registered. -/
theorem Progress.afterCalls_accounts (int64 : Integer64) (scope : Scope) (calls : List Call)
    : (Progress.afterCalls int64 scope {} calls).Accounts
        ((conversionLog int64 scope calls).map Message.name)
        (Progress.failures int64 scope {} calls) := by
  rw [← Logged.afterCalls_fst ({}, [])]
  exact Logged.afterCalls_accounts ({}, []) calls Progress.consistent_start
    Progress.accounts_start

/-- The objects without fields are exactly the deferred ones after calls that did not fail to
convert the fields of a message, and only after these. Whenever the definitions are printed then,
the objects printed without fields are exactly those at which some call failed.
-/
theorem deferralIntact_iff_no_failures (int64 : Integer64) (scope : Scope) (calls : List Call)
    : ((Progress.afterCalls int64 scope {} calls).DeferralIntact
        ↔ Progress.failures int64 scope {} calls = [])
      ∧ ∀ definitions last,
          exec (schemas int64 scope) (Progress.afterCalls int64 scope {} calls)
            = (.ok definitions, last)
          → ∀ name, last.Pending name ↔ name ∈ Progress.failures int64 scope {} calls := by
  have consistent : (Progress.afterCalls int64 scope {} calls).Consistent int64 scope anyRequest :=
    Steps.consistent (Progress.afterCalls_steps calls (fun _ _ _ _ => trivial) {})
      Progress.consistent_start
  have accounts := Progress.afterCalls_accounts int64 scope calls
  refine ⟨?intact, ?printed⟩
  case intact =>
    constructor
    · intro intact
      apply List.eq_nil_iff_forall_not_mem.mpr
      intro name member
      have pending := accounts.pending.mpr (.inr member)
      exact accounts.apart (accounts.failures member) ((intact name).mp pending)
    · intro none_ name
      rw [accounts.pending, none_]
      simp
  case printed =>
    intro definitions last success name
    rw [exec_schemas] at success
    cases run : exec (materialize int64 scope) (Progress.afterCalls int64 scope {} calls) with
    | mk result next =>
        rw [run] at success
        cases result with
        | error error => cases success
        | ok value =>
            cases success
            have forced := materialized_of_run run
            have printed := forced.accounts consistent accounts
            rw [forced.no_failure rfl] at printed
            rw [printed.pending, materialize_ok run]
            simp

/-- A listed message whose only field is of a type that is nowhere declared. -/
def danglingField : Scope where
  catalog := {}
  listed := [.message { name := "A", fields := [{ name := "b", type := .named "Missing" }] }]

/-- A call that fails leaves an object that neither has its fields nor is deferred, and the next
one prints it as an object without fields.
-/
theorem failed_object_is_printed
    : ¬ (Progress.afterCalls .text danglingField {} [.build, .schemas]).DeferralIntact
      ∧ (exec (schemas .text danglingField)
          (Progress.afterCalls .text danglingField {} [.build, .schemas])).1
        = .ok ["type A"] := by
  constructor
  · intro intact
    have registered
        : (Progress.afterCalls .text danglingField {} [.build, .schemas]).registry.get? "A"
          = some (.object { name := "A" }) := by decide +kernel
    have empty
        : (Progress.afterCalls .text danglingField {} [.build, .schemas]).deferred.keys = [] := by
      decide +kernel
    have queued := (intact "A").mp ⟨_, registered, rfl⟩
    rw [empty] at queued
    exact List.not_mem_nil queued
  · decide +kernel

/-- The objects that are printed without fields after that are those at which a call failed. -/
theorem danglingField_printed
    : ∃ last,
        exec (schemas .text danglingField)
            (Progress.afterCalls .text danglingField {} [.build, .schemas])
          = (.ok ["type A"], last)
        ∧ ∀ name, last.Pending name ↔ name = "A" := by
  have success : exec (schemas .text danglingField)
      (Progress.afterCalls .text danglingField {} [.build, .schemas])
      = (.ok ["type A"],
          (exec (schemas .text danglingField)
            (Progress.afterCalls .text danglingField {} [.build, .schemas])).2) :=
    exec_eq_of_ok (by decide +kernel)
  have failures : Progress.failures .text danglingField {} [.build, .schemas] = ["A"] := by
    decide +kernel
  refine ⟨_, success, fun name => ?_⟩
  have printed :=
    (deferralIntact_iff_no_failures .text danglingField [.build, .schemas]).2 _ _ success name
  rw [failures, List.mem_singleton] at printed
  exact printed

end ProtoSchema.GraphQL
