import ProtoSchema.Proofs.GraphQL.Deferral
import ProtoSchema.Proofs.GraphQL.Ownership

/-! What a call can change. Names are registered after those that are there, and what is registered
stays, except that an object whose fields are deferred may get them, once and for all.
-/

namespace ProtoSchema.GraphQL

open Schema
open Execution

variable {int64 : Integer64} {scope : Scope} {request : Request} {asked : Request → Prop}
  {before middle after : Progress}

/-- The type is kept, or it is an object whose deferred fields become known. -/
inductive NamedType.Becomes (type : NamedType) : NamedType → Prop
  | kept : Becomes type type
  | settled (fields : List FieldDefinition) (deferred : type.IsDeferred)
    : Becomes type (type.withFields fields)

/-- Fields that are known never change again, by cases on both steps. -/
theorem NamedType.Becomes.trans {type next last : NamedType} (first : type.Becomes next)
    (second : next.Becomes last)
    : type.Becomes last := by
  cases first with
  | kept => exact second
  | settled fields deferred =>
      cases second with
      | kept => exact .settled fields deferred
      | settled _ again => exact absurd again (withFields_not_isDeferred type fields)

/-- The registered names are followed by new ones, and each registered type is kept or gets its
deferred fields.
-/
structure Progress.Grows (before after : Progress) : Prop where
  names : before.registry.keys <+: after.registry.keys
  each
    : ∀ {name type},
        before.registry.get? name = some type
        → ∃ later, after.registry.get? name = some later ∧ type.Becomes later

theorem Progress.Grows.refl (progress : Progress) : progress.Grows progress :=
  ⟨List.prefix_refl _, fun found => ⟨_, found, .kept⟩⟩

theorem Progress.Grows.trans (first : before.Grows middle) (second : middle.Grows after)
    : before.Grows after := by
  refine ⟨first.names.trans second.names, fun found => ?_⟩
  obtain ⟨next, foundNext, becomes⟩ := first.each found
  obtain ⟨last, foundLast, again⟩ := second.each foundNext
  exact ⟨last, foundLast, becomes.trans again⟩

-----------------------------------------------------------------------------------------
-- Steps
-----------------------------------------------------------------------------------------

/-- A registration adds its name at the end and keeps all types. -/
theorem Registration.grows (step : Registration int64 scope request before after)
    : before.Grows after := by
  refine ⟨?names, fun found => ⟨_, step.retains found, .kept⟩⟩
  cases step with
  | @enter origin type allowed made fresh free =>
      have absent : origin.name ∉ before.registry.keys := by
        rintro member
        obtain ⟨_, found⟩ := OrderedMap.mem_keys_iff.mp member
        cases fresh.symm.trans found
      have keys : (before.enter origin type).registry.keys = before.registry.keys ++ [origin.name] :=
        (Entries.keys_insert ..).trans (if_neg absent)
      rw [keys]
      exact List.prefix_append _ _

theorem Registers.grows (steps : Registers int64 scope request before after)
    : before.Grows after := by
  induction steps with
  | refl => exact .refl _
  | tail _ step ih => exact ih.trans step.grows

/-- Filling in the fields of a registered message settles its type and keeps all others. -/
theorem Progress.grows_fill {message : Message} (fields : List FieldDefinition)
    (registered : before.registry.get? message.name = some (objectType message))
    : before.Grows (before.fill message.name fields) := by
  refine ⟨?names, fun {name type} found => ?each⟩
  case names =>
    have keys : (before.fill message.name fields).registry.keys = before.registry.keys :=
      Entries.keys_modify ..
    exact keys ▸ List.prefix_refl _
  case each =>
    rw [Progress.registry_fill, found]
    by_cases same : name = message.name
    · subst same
      cases registered.symm.trans found
      rw [if_pos rfl]
      exact ⟨_, rfl, .settled fields (objectType_isDeferred message)⟩
    · rw [if_neg same]
      exact ⟨type, rfl, .kept⟩

/-- Forcing a name settles at most the type of the message that was deferred under it. While its
fields are converted, other types may be registered, but that one stays as it is; so what is filled
in at the end is still without fields.
-/
theorem Forced.grows {name : String} {result : Except ConversionError Unit}
    (forced : Forced int64 scope before name (result, after))
    (consistent : before.Consistent int64 scope asked)
    : before.Grows after := by
  cases forced with
  | idle absent => exact .refl before
  | abandoned queued steps blocked =>
      have grown : (before.unqueue name).Grows after := Registers.grows steps
      exact ⟨grown.names, grown.each⟩
  | @converted message fields middle queued steps typed explains =>
      obtain ⟨rfl, _, registered⟩ := consistent.queued queued
      have grown : (before.unqueue message.name).Grows middle := Registers.grows steps
      have filled : middle.Grows (middle.fill message.name fields) :=
        Progress.grows_fill fields (Registers.retains steps registered)
      exact Progress.Grows.trans ⟨grown.names, grown.each⟩ filled

/-- Steps only add and settle types, by induction on their number. -/
theorem Steps.grows (steps : Steps int64 scope asked before after)
    (consistent : before.Consistent int64 scope asked)
    : before.Grows after := by
  induction steps with
  | refl => exact .refl before
  | tail earlier step ih =>
      apply ih.trans
      cases step with
      | register ask step => exact step.grows
      | force forced => exact forced.grows (Steps.consistent earlier consistent)

-----------------------------------------------------------------------------------------
-- Calls that change nothing
-----------------------------------------------------------------------------------------

/-- A name that is registered is resolved to its type, without any change. -/
theorem exec_resolve_registered {progress : Progress} {reference : String} {type : TypeRef}
    (plain : reference.toList.head? ≠ some '.')
    (known : progress.reference? reference = some type)
    : exec (resolve scope reference) progress = (.ok type, progress) := by
  unfold resolve
  rw [exec_get_bind, Name.dropLeadingDots_of_head? plain, known]
  rfl

/-- Where nothing is deferred, converting all deferred fields changes nothing; by cases on how it
ends.
-/
theorem exec_materialize_idle {progress : Progress} (settled : progress.deferred.keys = [])
    : exec (materialize int64 scope) progress = (.ok ⟨⟩, progress) := by
  have forced := @exec_materialize int64 scope progress
  generalize exec (materialize int64 scope) progress = outcome at forced
  generalize workBound scope progress = count at forced
  cases forced with
  | spent _ => rfl
  | done _ => rfl
  | next first _ _ => simp [settled] at first
  | failed first _ => simp [settled] at first

/-- Once the definitions were printed, they are printed again without any change. -/
theorem exec_schemas_again {definitions : List String}
    (success : exec (schemas int64 scope) before = (.ok definitions, after))
    : exec (schemas int64 scope) after = (.ok definitions, after) := by
  rw [exec_schemas] at success
  cases run : exec (materialize int64 scope) before with
  | mk result last =>
      rw [run] at success
      cases result with
      | error error => cases success
      | ok value =>
          cases success
          rw [exec_schemas, exec_materialize_idle (materialize_ok run)]

-----------------------------------------------------------------------------------------
-- All calls
-----------------------------------------------------------------------------------------

/-- The first resolution wins for good. After any calls, also ones that failed, one more call keeps
the registered names as the first ones and the registered types as they are, except that an object
may get its deferred fields, whether it succeeds or fails. Resolving a registered name gives the
name of its type and changes nothing, and so does printing the definitions again after they were
printed.
-/
theorem first_resolution_wins (int64 : Integer64) (scope : Scope) (calls : List Call)
    : (∀ call : Call,
        (Progress.afterCalls int64 scope {} calls).registry.keys
            <+: (call.after int64 scope (Progress.afterCalls int64 scope {} calls)).registry.keys
          ∧ ∀ name type,
              (Progress.afterCalls int64 scope {} calls).registry.get? name = some type
              → ∃ later,
                  (call.after int64 scope
                      (Progress.afterCalls int64 scope {} calls)).registry.get? name
                    = some later
                  ∧ type.Becomes later)
      ∧ (∀ name type,
          (Progress.afterCalls int64 scope {} calls).registry.get? name = some type
          → name.toList.head? ≠ some '.'
          → exec (resolve scope name) (Progress.afterCalls int64 scope {} calls)
              = (.ok (.named (typeName name)), Progress.afterCalls int64 scope {} calls))
      ∧ ∀ definitions last,
          exec (schemas int64 scope) (Progress.afterCalls int64 scope {} calls)
            = (.ok definitions, last)
          → exec (schemas int64 scope) last = (.ok definitions, last) := by
  have consistent := Progress.afterCalls_consistent int64 scope calls
  refine ⟨?grows, ?resolves, fun _ _ success => exec_schemas_again success⟩
  case grows =>
    intro call
    have steps : Steps int64 scope IsOpen (Progress.afterCalls int64 scope {} calls)
        (call.after int64 scope (Progress.afterCalls int64 scope {} calls)) :=
      call.steps (fun _ asks => Call.request?_isOpen asks) _
    have grown := Steps.grows steps consistent
    exact ⟨grown.names, fun _ _ found => grown.each found⟩
  case resolves =>
    intro name type found plain
    have known : (Progress.afterCalls int64 scope {} calls).reference? name
        = some (.named type.name) :=
      Progress.reference?_eq_some.mpr ⟨type, found, rfl⟩
    rw [exec_resolve_registered plain known, consistent.reference_eq known]

/-- A message with a map, of whose fields the last one is of a type that is nowhere declared. -/
def interrupted : Scope where
  catalog := {}
  listed := [
    .message {
      name := "A"
      fields := [
        { name := "counts", type := .scalar .int32, mapKey := some .string },
        { name := "b", type := .named "Missing" }] }]

/-- A call that fails on the way leaves the entries of the map behind the message; both names stay
resolved, and the definitions that are printed then are printed again.
-/
theorem interrupted_keeps_names
    : (Progress.afterCalls .text interrupted {} [.build]).registry.keys
        <+: (Progress.afterCalls .text interrupted {} [.build, .schemas]).registry.keys
      ∧ exec (resolve interrupted "CountsEntry_string_int32")
          (Progress.afterCalls .text interrupted {} [.build, .schemas])
        = (.ok (.named "CountsEntry_string_int32"),
            Progress.afterCalls .text interrupted {} [.build, .schemas])
      ∧ ∃ definitions last,
          exec (schemas .text interrupted)
              (Progress.afterCalls .text interrupted {} [.build, .schemas])
            = (.ok definitions, last)
          ∧ exec (schemas .text interrupted) last = (.ok definitions, last) := by
  obtain ⟨grows, _, _⟩ := first_resolution_wins .text interrupted [.build]
  obtain ⟨_, resolves, again⟩ := first_resolution_wins .text interrupted [.build, .schemas]
  refine ⟨(grows .schemas).1, ?_, ?_⟩
  · have registered
        : (Progress.afterCalls .text interrupted {} [.build, .schemas]).registry.get?
            "CountsEntry_string_int32"
          = some (.object { name := "CountsEntry_string_int32" }) := by
      decide +kernel
    exact resolves _ _ registered (by decide)
  · have forced : exec (materialize .text interrupted)
        (Progress.afterCalls .text interrupted {} [.build, .schemas])
        = (.ok ⟨⟩,
            (exec (materialize .text interrupted)
              (Progress.afterCalls .text interrupted {} [.build, .schemas])).2) :=
      exec_eq_of_ok (by decide +kernel)
    have run := @exec_schemas .text interrupted
      (Progress.afterCalls .text interrupted {} [.build, .schemas])
    rw [forced] at run
    exact ⟨_, _, run, again _ _ run⟩

end ProtoSchema.GraphQL
