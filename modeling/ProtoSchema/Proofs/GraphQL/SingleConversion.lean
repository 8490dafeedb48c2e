import Mathlib.Data.Finset.Card
import ProtoSchema.Proofs.GraphQL.Deferral
import ProtoSchema.Proofs.GraphQL.EntryTypes
import ProtoSchema.Proofs.GraphQL.Ownership

/-! How often fields are converted. A message is deferred only when its name is newly registered, and
it is no longer deferred once the conversion of its fields begins; so the fields under a name are
converted at most once, and converting whatever is deferred comes to an end.
-/

namespace ProtoSchema.GraphQL

open Schema
open Execution

variable {int64 : Integer64} {scope : Scope} {before : Progress}

/-- The loop that converts deferred fields until none are left or one conversion fails, with the
messages that it takes in turn; it has no bound of its own.
-/
inductive Drains (int64 : Integer64) (scope : Scope)
    : Progress → List Message → Except ConversionError Unit × Progress → Prop
  | done {before : Progress} (settled : before.deferred.keys.head? = none)
    : Drains int64 scope before [] (.ok ⟨⟩, before)
  | next {before middle : Progress} {name : String} {message : Message} {messages : List Message}
    {outcome : Except ConversionError Unit × Progress}
    (first : before.deferred.keys.head? = some name)
    (queued : before.deferred.get? name = some message)
    (run : exec (force int64 scope name) before = (.ok ⟨⟩, middle))
    (rest : Drains int64 scope middle messages outcome)
    : Drains int64 scope before (message :: messages) outcome
  | failed {before after : Progress} {name : String} {message : Message} {error : ConversionError}
    (first : before.deferred.keys.head? = some name)
    (queued : before.deferred.get? name = some message)
    (run : exec (force int64 scope name) before = (.error error, after))
    : Drains int64 scope before [message] (.error error, after)

/-- The names of the listed types, of those of the catalog and of the entries of their maps. -/
def typeNames (scope : Scope) : List String :=
  scope.listed.map Node.name ++ scope.catalog.nodes.map Node.name
    ++ (entriesOf (declaredMessages scope)).map Message.name

-----------------------------------------------------------------------------------------
-- The loop ends
-----------------------------------------------------------------------------------------

/-- The loop has one course at most, by induction on it. -/
theorem Drains.unique {messages others : List Message}
    {outcome rival : Except ConversionError Unit × Progress}
    (left : Drains int64 scope before messages outcome)
    (right : Drains int64 scope before others rival)
    : messages = others ∧ outcome = rival := by
  induction left generalizing others with
  | done settled =>
      cases right with
      | done _ => exact ⟨rfl, rfl⟩
      | next first _ _ _ => cases settled.symm.trans first
      | failed first _ _ => cases settled.symm.trans first
  | next first queued run _ ih =>
      cases right with
      | done settled => cases settled.symm.trans first
      | next again requeued rerun rest =>
          cases first.symm.trans again
          cases queued.symm.trans requeued
          cases run.symm.trans rerun
          obtain ⟨rfl, same⟩ := ih rest
          exact ⟨rfl, same⟩
      | failed again _ rerun =>
          cases first.symm.trans again
          cases run.symm.trans rerun
  | failed first queued run =>
      cases right with
      | done settled => cases settled.symm.trans first
      | next again _ rerun _ =>
          cases first.symm.trans again
          cases run.symm.trans rerun
      | failed again requeued rerun =>
          cases first.symm.trans again
          cases queued.symm.trans requeued
          cases run.symm.trans rerun
          exact ⟨rfl, rfl⟩

/-- Forcing the first names is the course of the loop if nothing is left deferred when it succeeds,
and what it takes in turn is what it converts; by induction on the outcome.
-/
theorem ForcedFirst.drains {count : Nat} {outcome : Except ConversionError Unit × Progress}
    (forced : ForcedFirst int64 scope count before outcome)
    (ended : outcome.1 = .ok ⟨⟩ → outcome.2.deferred.keys = [])
    : Drains int64 scope before ((forceFirst int64 scope count : Logged Unit).conversions before)
        outcome := by
  induction forced with
  | spent before => exact .done (List.head?_eq_none_iff.mpr (ended rfl))
  | done none_ =>
      rw [conversions_forceFirst_succ, none_]
      exact .done none_
  | next first run _ ih =>
      obtain ⟨message, queued⟩ := OrderedMap.mem_keys_iff.mp (List.mem_of_head? first)
      simp only [conversions_forceFirst_succ, first, queued, run]
      exact .next first queued run (ih ended)
  | failed first run =>
      obtain ⟨message, queued⟩ := OrderedMap.mem_keys_iff.mp (List.mem_of_head? first)
      simp only [conversions_forceFirst_succ, first, queued, run]
      exact .failed first queued run

/-- The loop ends from any progress, where converting all deferred fields does. -/
theorem drains_materialize (int64 : Integer64) (scope : Scope) (progress : Progress)
    : Drains int64 scope progress ((materialize int64 scope : Logged Unit).conversions progress)
        (exec (materialize int64 scope) progress) := by
  rw [conversions_materialize]
  exact (exec_materialize progress).drains fun success => materialize_ok (exec_eq_of_ok success)

-----------------------------------------------------------------------------------------
-- How many conversions there can be
-----------------------------------------------------------------------------------------

/-- A registered object comes from a message, so its name is that of a type of the schema or of the
entries of a map.
-/
theorem Progress.Consistent.object_name {progress : Progress}
    (consistent : progress.Consistent int64 scope IsOpen) {name : String}
    (object : progress.HasObject name)
    : name ∈ typeNames scope := by
  obtain ⟨type, found, isObject⟩ := object
  obtain ⟨origin, known, rfl, comes⟩ := consistent.sound found
  simp only [typeNames, List.mem_append]
  cases known.belongs fun _ apart => apart with
  | declared declared =>
      exact .inl (declared.imp List.mem_map_of_mem List.mem_map_of_mem)
  | entry declared member keyed =>
      refine .inr (List.mem_map.mpr ⟨_, mem_entriesOf.mpr ?_, rfl⟩)
      exact ⟨_, mem_declaredMessages.mpr declared, _, member, _, keyed, rfl⟩
  | group declared present =>
      cases comes with
      | made made =>
          have message := made.isObject_iff.mp isObject
          simp [Origin.message?] at message

/-- Converting deferred fields ends and never converts any twice. The loop that does so has a course
from any progress, and just the one that converting all deferred fields takes and logs. Calls do the
same with a log as without. Whichever calls are made, also ones that fail, the fields under each name
are converted at most once: those that were are those of the registered objects that are not
deferred. So there are no more conversions than names of types of the schema and of entries of their
maps.
-/
theorem fields_converted_once (int64 : Integer64) (scope : Scope)
    : (∀ progress messages outcome,
        Drains int64 scope progress messages outcome
        ↔ messages = (materialize int64 scope : Logged Unit).conversions progress
          ∧ outcome = exec (materialize int64 scope) progress)
      ∧ (∀ call : Call, Erases (call.pass int64 scope) (call.pass int64 scope))
      ∧ ∀ calls,
          (Logged.afterCalls int64 scope ({}, []) calls).1 = Progress.afterCalls int64 scope {} calls
          ∧ ((conversionLog int64 scope calls).map Message.name).Nodup
          ∧ (∀ name,
              name ∈ (conversionLog int64 scope calls).map Message.name
              ↔ (Progress.afterCalls int64 scope {} calls).HasObject name
                ∧ name ∉ (Progress.afterCalls int64 scope {} calls).deferred.keys)
          ∧ (conversionLog int64 scope calls).length ≤ (typeNames scope).toFinset.card := by
  refine ⟨fun progress messages outcome => ?loop, Call.erases, fun calls => ?calls⟩
  case loop =>
    constructor
    · exact fun drains => drains.unique (drains_materialize int64 scope progress)
    · rintro ⟨rfl, rfl⟩
      exact drains_materialize int64 scope progress
  case calls =>
    have accounts := Progress.afterCalls_accounts int64 scope calls
    have consistent := Progress.afterCalls_consistent int64 scope calls
    refine ⟨Logged.afterCalls_fst ({}, []) calls, accounts.once, fun name => ?_, ?_⟩
    · rw [accounts.objects]
      constructor
      · exact fun member => ⟨.inr member, accounts.apart member⟩
      · exact fun settled => settled.1.resolve_left settled.2
    · rw [← List.length_map Message.name, ← List.toFinset_card_of_nodup accounts.once]
      refine Finset.card_le_card fun name member => ?_
      rw [List.mem_toFinset] at member ⊢
      exact consistent.object_name (accounts.objects.mpr (.inr member))

/-- A message that refers to itself is converted once, and so are the entries of its map. -/
example
    : (conversionLog .text selfReference [.build, .fields "Person", .schemas, .schemas]).map
        Message.name
      = ["Person", "ScoresEntry_string_int32"] := by
  decide +kernel

end ProtoSchema.GraphQL
