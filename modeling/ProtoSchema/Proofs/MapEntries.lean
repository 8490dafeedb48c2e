import ProtoSchema.Proofs.GraphQL.EntryTypes
import ProtoSchema.Proofs.TypeScript.EntryTexts

/-! Entries are shared by name. Both conversions give a map field what stands under the name of its
entries, so they are right as far as names tell maps apart. They do where references to values have
no underscores and are not spelled like keywords, and where the names of fields that are not for
input do not end like the mark of an input; otherwise different maps may share an entry.
-/

namespace ProtoSchema

open Schema
open Schema.MapEntry

/-- Where names tell maps apart, entries of one name are equal up to leading dots; so either
conversion gives a map field its own entries, unless a type or a group has their name.
-/
theorem entries_stay_apart (scope : Scope) (int64 : Integer64) (style : TypeScript.CommentStyle)
    : (∀ {first second left right leftKey rightKey},
        Clear first left
        → Clear second right
        → name first left leftKey = name second right rightKey
        → SameEntry first second left right leftKey rightKey)
      ∧ (∀ {message field key type} (calls : List GraphQL.Call),
          GraphQL.ClearMaps scope
          → GraphQL.Declares scope (.message message)
          → field ∈ message.fields
          → field.mapKey = some key
          → (GraphQL.Progress.afterCalls int64 scope {} calls).registry.get?
                (name message field key)
              = some type
          → (GraphQL.Progress.afterCalls int64 scope {} calls).Comes int64 scope
                (.node (.message (MapEntry.message message field key))) type
            ∨ (∃ node, GraphQL.Declares scope node ∧ node.name = name message field key)
            ∨ GraphQL.GroupName scope (name message field key))
      ∧ (∀ {progress message field key text},
          GraphQL.ClearMaps scope
          → Execution.exec (TypeScript.build style int64 scope) {} = (.ok ⟨⟩, progress)
          → .message message ∈ scope.listed
          → field ∈ message.fields
          → field.mapKey = some key
          → progress.registry.get? (name message field key) = some text
          → text
              = TypeScript.nodeText style int64 scope
                  (.message (MapEntry.message message field key))
            ∨ ∃ node ∈ scope.listed, node.name = name message field key) := by
  refine ⟨sameEntry_of_name_eq, ?graphQL, ?typeScript⟩
  case graphQL =>
    intro message field key type calls clear declared member keyed found
    exact GraphQL.registered_entry clear calls declared member keyed found
  case typeScript =>
    intro progress message field key text clear built listed member keyed found
    have clearListed (other : Message) (inner : Field) (listed : .message other ∈ scope.listed)
        (inside : inner ∈ other.fields) (isMap : inner.isMap)
        : Clear other inner :=
      clear other inner (.inl listed) inside isMap
    exact TypeScript.declared_entry clearListed built listed member keyed found

/-- The map of the message that refers to itself. -/
def scores : Field where
  name := "scores"
  type := .scalar .int32
  mapKey := some .string

theorem scores_mem : scores ∈ GraphQL.person.fields := by
  decide

theorem name_scores : name GraphQL.person scores .string = "ScoresEntry_string_int32" := by
  decide +kernel

theorem selfReference_clearMaps : GraphQL.ClearMaps GraphQL.selfReference := by
  intro message field declared inside isMap
  cases GraphQL.declares_selfReference declared
  obtain ⟨key, keyed⟩ := Option.isSome_iff_exists.mp isMap
  obtain ⟨rfl, _⟩ := GraphQL.person_maps inside keyed
  refine ⟨fun reference named => ?_, fun _ => ?_⟩
  · cases named
  · decide +kernel

/-- The map of the message has its own entries in both conversions; and the entries of a map to a
type are equal to those of a map to its name with a leading dot.
-/
theorem selfReference_entries_stay_apart
    : SameEntry GraphQL.person GraphQL.person { name := "next", type := .named "Person" }
        { name := "next", type := .named ".Person" } .string .string
      ∧ (∃ type,
          (GraphQL.Progress.afterCalls .text GraphQL.selfReference {} [.build, .schemas]).Comes
            .text GraphQL.selfReference
            (.node (.message (MapEntry.message GraphQL.person scores .string))) type)
      ∧ ∃ progress,
          Execution.exec (TypeScript.build TypeScript.jsDoc .text GraphQL.selfReference) {}
            = (.ok ⟨⟩, progress)
          ∧ progress.registry.get? (name GraphQL.person scores .string)
            = some (TypeScript.nodeText TypeScript.jsDoc .text GraphQL.selfReference
                (.message (MapEntry.message GraphQL.person scores .string))) := by
  have undeclared (node : Node) (declared : GraphQL.Declares GraphQL.selfReference node)
      : node.name ≠ name GraphQL.person scores .string := by
    rw [GraphQL.declares_selfReference declared, name_scores]
    decide
  have noMark : ¬ "Input".toList <:+ (Name.pascalCase "next").toList := by decide +kernel
  have clear {reference : String} (plain : Name.dropLeadingDots reference = "Person")
      : Clear GraphQL.person { name := "next", type := .named reference } := by
    refine ⟨fun other named => ?_, fun _ => noMark⟩
    rw [← FieldType.named.inj named, plain]
    decide
  have apart := entries_stay_apart GraphQL.selfReference .text TypeScript.jsDoc
  refine ⟨?entries, ?graphQL, ?typeScript⟩
  case entries =>
    exact apart.1 (clear (by decide)) (clear (by decide)) (by decide +kernel)
  case graphQL =>
    have stands
        : ((GraphQL.Progress.afterCalls .text GraphQL.selfReference {}
            [.build, .schemas]).registry.get? (name GraphQL.person scores .string)).isSome := by
      decide +kernel
    obtain ⟨type, found⟩ := Option.isSome_iff_exists.mp stands
    rcases apart.2.1 _ selfReference_clearMaps (.inl List.mem_cons_self) scores_mem
      rfl found with comes | ⟨node, declared, named⟩ | group
    · exact ⟨type, comes⟩
    · exact absurd named (undeclared node declared)
    · rw [name_scores] at group
      exact absurd (GraphQL.groupName_selfReference group) (by decide)
  case typeScript =>
    have built : Execution.exec
          (TypeScript.build TypeScript.jsDoc .text GraphQL.selfReference) {}
        = (.ok ⟨⟩, (Execution.exec
            (TypeScript.build TypeScript.jsDoc .text GraphQL.selfReference) {}).2) :=
      Prod.ext (by decide +kernel) rfl
    have stands
        : ((Execution.exec (TypeScript.build TypeScript.jsDoc .text GraphQL.selfReference)
            {}).2.registry.get? (name GraphQL.person scores .string)).isSome := by
      decide +kernel
    obtain ⟨text, found⟩ := Option.isSome_iff_exists.mp stands
    rcases apart.2.2 selfReference_clearMaps built List.mem_cons_self scores_mem rfl
      found with same | ⟨node, listed, named⟩
    · exact ⟨_, built, same ▸ found⟩
    · exact absurd named (undeclared node (.inl listed))

/-- A map from texts to integers. -/
def counts (name : String) : Field where
  name := name
  type := .scalar .int32
  mapKey := some .string

/-- A message for input and one for output. -/
def search : Message where
  name := "Search"
  fields := [counts "labels"]
  isInput := true

def result : Message where
  name := "Result"
  fields := [counts "labels_input"]

/-- Names do not always tell maps apart: those of a value with a dot and of one with an underscore
in its place are the same, and so are those of the two messages, where the map for output gets the
type of the entries for input.
-/
theorem different_entries_share_names
    : (∃ (message : Message) (left right : Field),
        name message left .string = name message right .string
        ∧ left.type.absolute ≠ right.type.absolute)
      ∧ name search (counts "labels") .string = name result (counts "labels_input") .string
      ∧ search.isInput ≠ result.isInput
      ∧ (GraphQL.Progress.afterCalls .text
            { catalog := {}, listed := [.message search, .message result] } {}
            [.build, .schemas]).registry.get?
          (name result (counts "labels_input") .string)
        = some (.inputObject {
            name := "LabelsInputEntry_string_int32"
            fields := .resolved [
              { name := "key", type := .nonNull (.named "String") },
              { name := "value", type := .nonNull (.named "Int") }] }) := by
  refine ⟨?_, ?_, ?_, ?_⟩
  · refine ⟨search, { name := "items", type := .named "a.Item" },
      { name := "items", type := .named "a_Item" }, ?_⟩
    decide +kernel
  · decide +kernel
  · decide
  · decide +kernel

end ProtoSchema
