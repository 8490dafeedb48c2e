import ProtoSchema.Proofs.TypeScript.ListOrder

/-! References to nothing. What a declaration refers to was found in the scope, so a run fails on a
reference that denotes nothing, provided that the message with the field, or the entry of the map,
is declared itself and not taken for declared because something else has its name.
-/

namespace ProtoSchema.TypeScript

open Schema
open Execution

variable {style : CommentStyle} {int64 : Integer64} {scope : Scope} {progress : Progress}
  {message : Message} {field : Field} {reference : String}

/-- Nothing else that may be declared has the name of the type. -/
def HasOwnName (scope : Scope) (node : Node) : Prop :=
  ∀ other, Source scope other → other.name = node.name → other = node

/-- The message and the entries of the field have names of their own. -/
structure OwnNames (scope : Scope) (message : Message) (field : Field) : Prop where
  owner : HasOwnName scope (.message message)
  entry
    : ∀ key,
        field.mapKey = some key
        → HasOwnName scope (.message (MapEntry.message message field key))

/-- What is declared under a name of its own is ready and covered. -/
theorem Progress.Finished.ready {node : Node} (finished : progress.Finished style int64 scope)
    (own : HasOwnName scope node) (declared : node.name ∈ progress.registry.keys)
    : Ready scope node ∧ progress.Covers scope node := by
  obtain ⟨text, found⟩ := OrderedMap.mem_keys_iff.mp declared
  obtain ⟨other, source, named, _, ready, covers⟩ := finished.sound.declared found
  cases own other source named
  exact ⟨ready, covers⟩

/-- A declaration that is ready has no reference to nothing in the fields that it shows, maps
apart.
-/
theorem not_ready_of_unknown (unknown : scope.find? reference = none)
    (shown : field ∈ shownFields message) (keyless : field.mapKey = none)
    (named : field.type = .named reference)
    : ¬ Ready scope (.message message) := by
  intro ready
  cases ready with
  | message _ finds =>
      have found := finds field shown keyless
      rw [named] at found
      obtain ⟨node, denotes⟩ := found
      cases unknown.symm.trans denotes

/-- A conversion fails if a listed message has a field whose reference denotes nothing, where the
message and its entries have names of their own.
-/
theorem convert_fails_of_unknown (listed : .message message ∈ scope.listed)
    (grouped : message.Grouped) (member : field ∈ message.fields)
    (named : field.type = .named reference) (unknown : scope.find? reference = none)
    (own : OwnNames scope message field)
    : ∃ error, convert style int64 scope = .error error := by
  cases success : convert style int64 scope with
  | error error => exact ⟨error, rfl⟩
  | ok output =>
      have finished := build_finished (exec_build_ok.mpr ⟨(convert_eq_ok.mp success).1, rfl⟩)
      obtain ⟨ready, covers⟩ := finished.ready own.owner (finished.listed _ listed)
      have shown : field ∈ shownFields message := by
        cases ready with
        | message groups _ =>
            exact (mem_shownFields_iff grouped.ownMembers groups).mpr (grouped.shows member)
      cases keyed : field.mapKey with
      | none => exact absurd ready (not_ready_of_unknown unknown shown keyed named)
      | some key =>
          have entryName
              : MapEntry.name? message field = some (MapEntry.name message field key) := by
            rw [MapEntry.name?, keyed, Option.map_some]
          have entered := covers.entries _ (mem_entryNames.mpr ⟨field, shown, entryName⟩)
          rw [← MapEntry.name_message] at entered
          obtain ⟨entryReady, _⟩ := finished.ready (own.entry key keyed) entered
          have value : { name := "value", type := field.type }
              ∈ shownFields (MapEntry.message message field key) := by
            rw [shownFields_entry]
            exact MapEntry.mem_fields.mpr (.inr rfl)
          exact absurd entryReady (not_ready_of_unknown unknown value rfl named)

end ProtoSchema.TypeScript
