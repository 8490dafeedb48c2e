import ProtoSchema.Proofs.GraphQL.Serving

/-! The calls that a conversion offers, and what any sequence of them does to its progress: single
registrations, and the conversion of the fields of one deferred message after the other. A
message whose fields cannot be converted is no longer deferred.
-/

namespace ProtoSchema.GraphQL

open Schema
open Execution

variable {int64 : Integer64} {scope : Scope}

/-- A call on a conversion. -/
inductive Call where
  | build
  | resolve (reference : String)
  | fields (reference : String)
  | materialize
  | schemas
deriving DecidableEq, Repr

/-- What a call does, without the value that it gives. -/
def Call.pass {m : Type → Type} [MonadConversion m] (int64 : Integer64) (scope : Scope)
    : Call → m Unit
  | .build => GraphQL.build scope
  | .resolve reference => discard (GraphQL.resolve scope reference)
  | .fields reference => discard (GraphQL.fields int64 scope reference)
  | .materialize => GraphQL.materialize int64 scope
  | .schemas => discard (GraphQL.schemas int64 scope)

/-- The progress after a call, which may have failed. -/
def Call.after (int64 : Integer64) (scope : Scope) (progress : Progress) (call : Call)
    : Progress :=
  (exec (call.pass int64 scope) progress).2

/-- The progress after calls one after the other, any of which may have failed. -/
def Progress.afterCalls (int64 : Integer64) (scope : Scope) (progress : Progress)
    (calls : List Call)
    : Progress :=
  calls.foldl (Call.after int64 scope) progress

/-- The request that a call makes before it forces any fields. -/
def Call.request? : Call → Option Request
  | .build => some .listed
  | .resolve reference => some (.reference reference)
  | .fields _ => none
  | .materialize => none
  | .schemas => none

/-- The progress in which no fields are deferred under a name. -/
def Progress.unqueue (progress : Progress) (name : String) : Progress :=
  { progress with deferred := progress.deferred.erase name }

/-- The progress in which the object under a name has its fields. -/
def Progress.fill (progress : Progress) (name : String) (fields : List FieldDefinition)
    : Progress :=
  { progress with registry := progress.registry.modify name fun type => type.withFields fields }

/-- The outcomes of forcing a name: it has no deferred fields, or they are converted and filled
in, or their conversion is blocked, which leaves them neither deferred nor filled in.
-/
inductive Forced (int64 : Integer64) (scope : Scope) (before : Progress) (name : String)
    : Except ConversionError Unit × Progress → Prop
  | idle (absent : before.deferred.get? name = none)
    : Forced int64 scope before name (.ok ⟨⟩, before)
  | converted {message : Message} {fields : List FieldDefinition} {middle : Progress}
    (queued : before.deferred.get? name = some message)
    (steps : Registers int64 scope (.fields message) (before.unqueue name) middle)
    (typed : List.Forall₂ (middle.TypesSlot int64 scope message) message.slots fields)
    (explains : Explains (before.unqueue name) middle (fields.map FieldDefinition.type))
    : Forced int64 scope before name (.ok ⟨⟩, middle.fill name fields)
  | abandoned {message : Message} {error : ConversionError} {after : Progress}
    (queued : before.deferred.get? name = some message)
    (steps : Registers int64 scope (.fields message) (before.unqueue name) after)
    (blocked : Blocked scope (.fields message) after error)
    : Forced int64 scope before name (.error error, after)

/-- Forcing has one of its outcomes, by cases on the conversion of the fields. -/
theorem exec_force (name : String) (before : Progress)
    : Forced int64 scope before name (exec (force int64 scope name) before) := by
  unfold force
  rw [exec_get_bind]
  cases queued : before.deferred.get? name with
  | none => exact .idle queued
  | some message =>
      simp only
      rw [exec_bind_ok (exec_modify _ _)]
      have serves := @messageFields_serves int64 scope message (before.unqueue name)
      cases run : exec (messageFields int64 scope message) (before.unqueue name) with
      | mk result middle =>
          rw [run] at serves
          cases serves with
          | error steps blocked =>
              rw [← Progress.unqueue, exec_bind_error run]
              exact .abandoned queued steps blocked
          | ok steps result =>
              rw [← Progress.unqueue, exec_bind_ok run, exec_modify]
              exact .converted queued steps result.1 result.2

theorem forced_of_run {name : String} {before : Progress}
    {outcome : Except ConversionError Unit × Progress}
    (run : exec (force int64 scope name) before = outcome)
    : Forced int64 scope before name outcome := by
  rw [← run]
  exact exec_force name before

/-- The outcomes of forcing the first names: there is none left to force or to count, the first
one is forced and then the rest, or forcing the first one fails.
-/
inductive ForcedFirst (int64 : Integer64) (scope : Scope)
    : Nat → Progress → Except ConversionError Unit × Progress → Prop
  | spent (before : Progress) : ForcedFirst int64 scope 0 before (.ok ⟨⟩, before)
  | done {count : Nat} {before : Progress} (none_ : before.deferred.keys.head? = none)
    : ForcedFirst int64 scope (count + 1) before (.ok ⟨⟩, before)
  | next {count : Nat} {before middle : Progress} {name : String}
    {outcome : Except ConversionError Unit × Progress}
    (first : before.deferred.keys.head? = some name)
    (run : exec (force int64 scope name) before = (.ok ⟨⟩, middle))
    (rest : ForcedFirst int64 scope count middle outcome)
    : ForcedFirst int64 scope (count + 1) before outcome
  | failed {count : Nat} {before after : Progress} {name : String} {error : ConversionError}
    (first : before.deferred.keys.head? = some name)
    (run : exec (force int64 scope name) before = (.error error, after))
    : ForcedFirst int64 scope (count + 1) before (.error error, after)

/-- Forcing the first names has one of its outcomes, by induction on their number. -/
theorem exec_forceFirst (count : Nat) (before : Progress)
    : ForcedFirst int64 scope count before (exec (forceFirst int64 scope count) before) := by
  induction count generalizing before with
  | zero => exact .spent before
  | succ count ih =>
      unfold forceFirst
      rw [exec_get_bind]
      cases first : before.deferred.keys.head? with
      | none => exact .done first
      | some name =>
          simp only
          cases run : exec (force int64 scope name) before with
          | mk result middle =>
              cases result with
              | error error =>
                  rw [exec_bind_error run]
                  exact .failed first run
              | ok value =>
                  rw [exec_bind_ok run]
                  exact .next first run (ih middle)

/-- All deferred fields are converted by forcing the first names often enough. -/
theorem exec_materialize (before : Progress)
    : ForcedFirst int64 scope (workBound scope before) before
        (exec (materialize int64 scope) before) := by
  unfold materialize
  rw [exec_get_bind]
  exact exec_forceFirst _ before

theorem materialized_of_run {before : Progress} {outcome : Except ConversionError Unit × Progress}
    (run : exec (materialize int64 scope) before = outcome)
    : ForcedFirst int64 scope (workBound scope before) before outcome := by
  rw [← run]
  exact exec_materialize before

-----------------------------------------------------------------------------------------
-- Steps
-----------------------------------------------------------------------------------------

/-- One step of a conversion: a registration for a request that was asked for, or the forcing of
the fields under one name.
-/
inductive Step (int64 : Integer64) (scope : Scope) (asked : Request → Prop)
    : Progress → Progress → Prop
  | register {request : Request} {before after : Progress} (ask : asked request)
    (step : Registration int64 scope request before after)
    : Step int64 scope asked before after
  | force {name : String} {before after : Progress} {result : Except ConversionError Unit}
    (forced : Forced int64 scope before name (result, after))
    : Step int64 scope asked before after

/-- Any number of steps. -/
abbrev Steps (int64 : Integer64) (scope : Scope) (asked : Request → Prop)
    : Progress → Progress → Prop :=
  Relation.ReflTransGen (Step int64 scope asked)

variable {asked : Request → Prop}

/-- Serving a request that was asked for is a sequence of steps. -/
theorem Serves.steps {α : Type} {request : Request} {before : Progress}
    {holds : α → Progress → Prop} {outcome : Except ConversionError α × Progress} (ask : asked request)
    (serves : Serves int64 scope request before holds outcome)
    : Steps int64 scope asked before outcome.2 :=
  Relation.ReflTransGen.mono (fun _ _ step => .register ask step) _ _ serves.registers

theorem force_steps (name : String) (before : Progress)
    : Steps int64 scope asked before (exec (force int64 scope name) before).2 :=
  .single (.force (exec_force name before))

/-- Forcing the first names is a sequence of steps, by induction on its outcome. -/
theorem ForcedFirst.steps {count : Nat} {before : Progress}
    {outcome : Except ConversionError Unit × Progress}
    (forced : ForcedFirst int64 scope count before outcome)
    : Steps int64 scope asked before outcome.2 := by
  induction forced with
  | spent before => exact .refl
  | done none_ => exact .refl
  | next first run rest ih => exact .head (.force (forced_of_run run)) ih
  | failed first run => exact .single (.force (forced_of_run run))

/-- What a successful conversion of one message preserves holds after forcing the first names
with success, by induction on the outcome.
-/
theorem ForcedFirst.preserves {holds : Progress → Prop} {count : Nat} {before after : Progress}
    (forced : ForcedFirst int64 scope count before (.ok ⟨⟩, after))
    (step
      : ∀ before name after,
          Forced int64 scope before name (.ok ⟨⟩, after) → holds before → holds after)
    (start : holds before)
    : holds after := by
  generalize same : ((.ok ⟨⟩, after) : Except ConversionError Unit × Progress) = outcome at forced
  induction forced with
  | spent before =>
      cases same
      exact start
  | done none_ =>
      cases same
      exact start
  | next first run rest ih => exact ih (step _ _ _ (forced_of_run run) start) same
  | failed first run => cases same

/-- Reading the fields of a message leaves the progress of forcing them, by cases on the outcome
of the latter.
-/
theorem exec_fields_snd (reference : String) (before : Progress)
    : (exec (GraphQL.fields int64 scope reference) before).2
      = (exec (force int64 scope (Name.dropLeadingDots reference)) before).2 := by
  unfold GraphQL.fields
  cases run : exec (force int64 scope (Name.dropLeadingDots reference)) before with
  | mk result after =>
      cases result with
      | error error => rw [exec_bind_error run]
      | ok value =>
          rw [exec_bind_ok run, exec_get_bind]
          generalize (after.registry.get? _).bind NamedType.fields? = known
          cases known <;> rfl

/-- Printing the definitions leaves the progress of converting all fields, by cases on the outcome
of the latter.
-/
theorem exec_schemas (before : Progress)
    : exec (schemas int64 scope) before
      = match exec (materialize int64 scope) before with
        | (.ok _, after) => (.ok after.definitions, after)
        | (.error error, after) => (.error error, after) := by
  unfold schemas
  rw [exec_bind]
  cases exec (materialize int64 scope) before with
  | mk result after =>
      cases result with
      | error error => rfl
      | ok value =>
          simp only
          rw [exec_get_bind, exec_pure]

theorem exec_schemas_snd (before : Progress)
    : (exec (schemas int64 scope) before).2 = (exec (materialize int64 scope) before).2 := by
  rw [exec_schemas]
  cases exec (materialize int64 scope) before with
  | mk result after => cases result <;> rfl

theorem exec_discard_snd {α : Type} (pass : Pass α) (before : Progress)
    : (exec (discard pass) before).2 = (exec pass before).2 := by
  rw [exec_discard]

/-- Discarding a result does not change how a request was served, by cases on the outcome. -/
theorem Serves.discard {α : Type} {request : Request} {before : Progress}
    {holds : α → Progress → Prop} {more : Progress → Prop} {pass : Pass α}
    (serves : Serves int64 scope request before holds (exec pass before))
    (weaken : ∀ value after, holds value after → more after)
    : Serves int64 scope request before (fun _ after => more after)
        (exec (discard pass) before) := by
  rw [exec_discard]
  cases outcome : exec pass before with
  | mk result after =>
      rw [outcome] at serves
      cases serves with
      | ok steps result => exact .ok steps (weaken _ _ result)
      | error steps blocked => exact .error steps blocked

/-- Building registers every node of a part of the list, by induction on that part. -/
theorem forM_resolveNode_serves (nodes : List Node) (listed : ∀ node ∈ nodes, node ∈ scope.listed)
    (before : Progress)
    : Serves int64 scope .listed before
        (fun _ after => ∀ node ∈ nodes, ∃ type, after.reference? node.name = some type)
        (exec (nodes.forM fun node => discard (resolveNode node)) before) := by
  induction nodes generalizing before with
  | nil => exact .ok .refl fun node member => absurd member List.not_mem_nil
  | cons node rest ih =>
      have allowed : Request.listed.Allows scope (.node node) :=
        .listed (listed node List.mem_cons_self)
      have head
          : Serves int64 scope .listed before
              (fun _ after => ∃ type, after.reference? node.name = some type)
              (exec (discard (resolveNode node)) before) :=
        (resolveNode_serves allowed before).discard fun type _ result => ⟨type, result.1⟩
      apply head.bind
      intro _ middle _ known
      have tail := ih (fun node member => listed node (List.mem_cons_of_mem _ member)) middle
      apply tail.imp
      intro _ after steps others other member
      rcases List.mem_cons.mp member with rfl | later
      · obtain ⟨type, known⟩ := known
        exact ⟨type, Registers.keeps steps _ _ known⟩
      · exact others other later

theorem build_serves (before : Progress)
    : Serves int64 scope .listed before
        (fun _ after => ∀ node ∈ scope.listed, ∃ type, after.reference? node.name = some type)
        (exec (build scope) before) :=
  forM_resolveNode_serves scope.listed (fun _ member => member) before

/-- A call is a sequence of steps that serve what it asks for, by cases on the call. -/
theorem Call.steps (call : Call) (asks : ∀ request, call.request? = some request → asked request)
    (before : Progress)
    : Steps int64 scope asked before (call.after int64 scope before) := by
  cases call with
  | build => exact (build_serves before).steps (asks _ rfl)
  | resolve reference =>
      have serves := @resolve_serves int64 scope _ reference (.reference reference) before
      rw [Call.after, Call.pass, exec_discard_snd]
      exact serves.steps (asks _ rfl)
  | fields reference =>
      rw [Call.after, Call.pass, exec_discard_snd, exec_fields_snd]
      exact force_steps _ before
  | materialize => exact (exec_materialize before).steps
  | schemas =>
      rw [Call.after, Call.pass, exec_discard_snd, exec_schemas_snd]
      exact (exec_materialize before).steps

/-- Calls are sequences of steps that serve what they ask for, by induction on the calls. -/
theorem Progress.afterCalls_steps (calls : List Call)
    (asks : ∀ call ∈ calls, ∀ request, call.request? = some request → asked request)
    (before : Progress)
    : Steps int64 scope asked before (before.afterCalls int64 scope calls) := by
  induction calls generalizing before with
  | nil => exact .refl
  | cons call rest ih =>
      have head := @Call.steps int64 scope asked call (asks call List.mem_cons_self) before
      exact head.trans (ih (fun call member => asks call (List.mem_cons_of_mem _ member)) _)

-----------------------------------------------------------------------------------------
-- Whole conversions
-----------------------------------------------------------------------------------------

/-- The conversion of the listed types as one pass. -/
def conversion (int64 : Integer64) (scope : Scope) : Pass (List String) := do
  build scope
  schemas int64 scope

/-- The progress in which the conversion of the listed types ends. -/
def finalProgress (int64 : Integer64) (scope : Scope) : Progress :=
  (exec (conversion int64 scope) {}).2

theorem convert_eq (int64 : Integer64) (scope : Scope)
    : convert int64 scope = (exec (conversion int64 scope) {}).1 :=
  rfl

/-- A conversion that succeeds has registered the listed types and converted all deferred fields.
-/
theorem convert_ok {definitions : List String} (success : convert int64 scope = .ok definitions)
    : ∃ built,
        exec (build scope) {} = (.ok ⟨⟩, built)
        ∧ exec (materialize int64 scope) built = (.ok ⟨⟩, finalProgress int64 scope)
        ∧ definitions = (finalProgress int64 scope).definitions := by
  have run : exec (conversion int64 scope) {} = (.ok definitions, finalProgress int64 scope) := by
    rw [← success, convert_eq]
    rfl
  obtain ⟨_, built, builds, rest⟩ := exec_bind_eq_ok.mp run
  rw [exec_schemas] at rest
  cases forced : exec (materialize int64 scope) built with
  | mk result last =>
      rw [forced] at rest
      cases result with
      | error error => cases rest
      | ok value =>
          obtain ⟨same, last_⟩ := Prod.mk.inj rest
          subst last_
          exact ⟨built, builds, forced, (Except.ok.inj same).symm⟩

/-- A conversion succeeds once the listed types are registered and all deferred fields converted.
-/
theorem convert_of_ok {built last : Progress} (builds : exec (build scope) {} = (.ok ⟨⟩, built))
    (forced : exec (materialize int64 scope) built = (.ok ⟨⟩, last))
    : convert int64 scope = .ok last.definitions := by
  rw [convert_eq, conversion, exec_bind_ok builds, exec_schemas, forced]

end ProtoSchema.GraphQL
