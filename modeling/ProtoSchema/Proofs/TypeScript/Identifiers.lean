import ProtoSchema.Proofs.TypeScript.Warnings
import ProtoSchema.Proofs.UnknownReferences

/-! The identifiers of declarations. Declarations are kept apart by the qualified names of their
types but declare the simple names, and references are written as simple names. So a reference
denotes the type that it was resolved to where simple names tell the types apart, and only there:
two types of one simple name are declared without an error.
-/

namespace ProtoSchema.TypeScript

open Schema
open Execution

variable {style : CommentStyle} {int64 : Integer64} {scope : Scope} {progress : Progress}

/-- What a declaration starts with. -/
def exportKeyword : Node → String
  | .message _ => "export interface "
  | .enumeration _ => "export enum "

/-- The identifiers that are declared. -/
def Progress.identifiers (progress : Progress) : List String :=
  progress.registry.keys.map Name.simple

/-- The entries of the maps in the declaration of a type. -/
def mapEntries : Node → List Node
  | .enumeration _ => []
  | .message content =>
      ((shownFields content).filterMap (MapEntry.message? content)).map .message

/-- The types that may be declared. -/
def sources (scope : Scope) : List Node :=
  scope.listed ++ scope.listed.flatMap mapEntries

/-- Identifiers tell types apart: types that may be declared have different ones, and no other type
that is referred to has one of theirs.
-/
structure Unambiguous (scope : Scope) : Prop where
  declared
    : ∀ first ∈ sources scope,
        ∀ second ∈ sources scope, first.simpleName = second.simpleName → first = second
  dangling
    : ∀ name ∈ danglingNames scope, ∀ node ∈ sources scope, node.simpleName ≠ Name.simple name

instance (scope : Scope) : Decidable (Unambiguous scope) :=
  decidable_of_iff (_ ∧ _) ⟨fun both => ⟨both.1, both.2⟩, fun apart => ⟨apart.1, apart.2⟩⟩

/-- These are exactly the sources of declarations. -/
theorem mem_sources {node : Node} : node ∈ sources scope ↔ Source scope node := by
  constructor
  · intro member
    rcases List.mem_append.mp member with listed | entry
    · exact .listed listed
    · obtain ⟨owner, listed, inside⟩ := List.mem_flatMap.mp entry
      cases owner with
      | enumeration content => exact absurd inside List.not_mem_nil
      | message content =>
          obtain ⟨entry, found, rfl⟩ := List.mem_map.mp inside
          obtain ⟨field, shown, made⟩ := List.mem_filterMap.mp found
          obtain ⟨key, keyed, rfl⟩ := Option.map_eq_some_iff.mp made
          exact .entry listed shown keyed
  · intro source
    cases source with
    | listed member => exact List.mem_append_left _ member
    | entry owner shown keyed =>
        refine List.mem_append_right _ (List.mem_flatMap.mpr ⟨_, owner, List.mem_map_of_mem ?_⟩)
        refine List.mem_filterMap.mpr ⟨_, shown, ?_⟩
        rw [MapEntry.message?, keyed, Option.map_some]

/-- The entry of a map in the declaration of a source is a source itself, by cases on the source:
there are no maps in entries.
-/
theorem Source.entry_of_shown {message : Message} {field : Field} {key : Scalar}
    (source : Source scope (.message message)) (shown : field ∈ shownFields message)
    (keyed : field.mapKey = some key)
    : Source scope (.message (MapEntry.message message field key)) := by
  cases source with
  | listed member => exact .entry member shown keyed
  | entry _ _ _ =>
      rw [shownFields_entry] at shown
      cases (MapEntry.plain_of_mem shown).1.symm.trans keyed

/-- A declaration declares the simple name of its type, by cases on the type. -/
theorem nodeText_header (node : Node)
    : ∃ lines,
        nodeText style int64 scope node
        = style node.comment .block ++ exportKeyword node ++ node.simpleName
          ++ printBody lines := by
  cases node with
  | message content => exact ⟨_, rfl⟩
  | enumeration content => exact ⟨_, rfl⟩

-----------------------------------------------------------------------------------------
-- What identifiers denote
-----------------------------------------------------------------------------------------

/-- The type is declared, and its identifier is declared for no other type. -/
structure Progress.DeclaresOnly (progress : Progress) (style : CommentStyle) (int64 : Integer64)
    (scope : Scope) (node : Node)
    : Prop where
  declared : progress.registry.get? node.name = some (nodeText style int64 scope node)
  only : ∀ name ∈ progress.registry.keys, Name.simple name = node.simpleName → name = node.name

/-- What the written type of a field denotes: a type that is built in, the declaration of what the
reference was resolved to or of the entry of the map, or nothing, where the reference was resolved
to a type that is warned about.
-/
inductive Progress.Denotes (progress : Progress) (style : CommentStyle) (int64 : Integer64)
    (scope : Scope) (message : Message) (field : Field)
    : Prop
  | builtIn {kind : Scalar} (keyless : field.mapKey = none) (value : field.type = .scalar kind)
    (text
      : fieldText int64 scope message field = arrayType field (kind.typeScript int64).name)
  | declared {reference : String} {node : Node} (keyless : field.mapKey = none)
    (value : field.type = .named reference) (found : scope.find? reference = some node)
    (text : fieldText int64 scope message field = arrayType field node.simpleName)
    (declares : progress.DeclaresOnly style int64 scope node)
  | undeclared {reference : String} {node : Node} (keyless : field.mapKey = none)
    (value : field.type = .named reference) (found : scope.find? reference = some node)
    (text : fieldText int64 scope message field = arrayType field node.simpleName)
    (warned : node.name ∈ progress.warned) (absent : node.simpleName ∉ progress.identifiers)
  | entry {key : Scalar} (keyed : field.mapKey = some key)
    (text
      : fieldText int64 scope message field
        = arrayType field (MapEntry.message message field key).simpleName)
    (declares
      : progress.DeclaresOnly style int64 scope (.message (MapEntry.message message field key)))

theorem Unambiguous.unique (apart : Unambiguous scope) {first second : Node}
    (left : Source scope first) (right : Source scope second) (named : first.name = second.name)
    : first = second :=
  apart.declared first (mem_sources.mpr left) second (mem_sources.mpr right)
    (congrArg Name.simple named)

section Unambiguous

variable (finished : progress.Finished style int64 scope) (apart : Unambiguous scope)

include finished apart

/-- Every source is declared with its own text, and no other one has its identifier. -/
theorem Unambiguous.declaresOnly {node : Node} (source : Source scope node)
    : progress.DeclaresOnly style int64 scope node := by
  refine ⟨(finished.declares_of_unique apart.unique source).1, fun name member same => ?_⟩
  obtain ⟨origin, comes, rfl⟩ := finished.sound.source_of_mem member
  rw [apart.declared _ (mem_sources.mpr comes) _ (mem_sources.mpr source) same]

/-- No type of a dangling reference shares its identifier with a declaration. -/
theorem Unambiguous.notMem_identifiers {name : String} (dangling : name ∈ danglingNames scope)
    : Name.simple name ∉ progress.identifiers := by
  intro declared
  obtain ⟨other, member, same⟩ := List.mem_map.mp declared
  obtain ⟨origin, comes, rfl⟩ := finished.sound.source_of_mem member
  exact apart.dangling name dangling origin (mem_sources.mpr comes) same

theorem Unambiguous.nodup_identifiers : progress.identifiers.Nodup := by
  refine progress.registry.nodup.map_on fun first left second right same => ?_
  obtain ⟨origin, comes, rfl⟩ := finished.sound.source_of_mem left
  exact ((apart.declaresOnly finished comes).only second right same.symm).symm

/-- What a field names is what its reference was resolved to, by cases on what it names: a listed
type that a reference was resolved to is itself on the list, since the catalog has one type of its
name.
-/
theorem Unambiguous.denotes (loaded : Descriptor.Loaded scope.catalog)
    (stored : ∀ node ∈ scope.listed, node ∈ scope.catalog.nodes)
    (warned : progress.warned = danglingNames scope) {message : Message} {field : Field}
    (source : Source scope (.message message)) (shown : field ∈ shownFields message)
    : progress.Denotes style int64 scope message field := by
  obtain ⟨-, ready, covers⟩ := finished.declares_of_unique apart.unique source
  cases finished.names ready covers shown with
  | builtIn keyless value text => exact .builtIn keyless value text
  | @listed reference node keyless value found text listed declared =>
      have target : Source scope node := by
        obtain ⟨other, member, same⟩ := List.any_eq_true.mp listed
        have inside : node ∈ scope.catalog.nodes :=
          (Scope.mem_of_find?_eq_some found).elim (stored node) id
        rw [← loaded.name_injective (stored other member) inside (of_decide_eq_true same)]
        exact .listed member
      exact .declared keyless value found text (apart.declaresOnly finished target)
  | unlisted keyless value found text unlisted member =>
      refine .undeclared keyless value found text member ?_
      rw [warned] at member
      exact apart.notMem_identifiers finished member
  | entry keyed text declared =>
      exact .entry keyed text (apart.declaresOnly finished (source.entry_of_shown shown keyed))

end Unambiguous

/-- Every declaration is that of a listed type or of the entry of a map, and declares its simple
name. The declared identifiers are distinct exactly if the simple names of the types that are
declared are; and where identifiers tell types apart, each reference denotes the declaration of
the type that it was resolved to.
-/
theorem identifiers_unambiguous (loaded : Descriptor.Loaded scope.catalog)
    (stored : ∀ node ∈ scope.listed, node ∈ scope.catalog.nodes)
    (built : exec (build style int64 scope) {} = (.ok ⟨⟩, progress))
    : (∀ name text,
          progress.registry.get? name = some text
          → ∃ node lines,
              Source scope node
              ∧ node.name = name
              ∧ text = nodeText style int64 scope node
              ∧ text
                = style node.comment .block ++ exportKeyword node ++ Name.simple name
                  ++ printBody lines)
      ∧ (progress.identifiers.Nodup
          ↔ ((declarationOrder scope.listed).map Name.simple).Nodup)
      ∧ (Unambiguous scope
          → progress.identifiers.Nodup
            ∧ ∀ message,
                Source scope (.message message)
                → ∀ field ∈ shownFields message,
                    progress.Denotes style int64 scope message field) := by
  have finished := build_finished built
  refine ⟨fun name text found => ?texts, ?distinct, fun apart => ?denoted⟩
  case texts =>
    obtain ⟨node, source, rfl, rfl, -, -⟩ := finished.sound.declared found
    obtain ⟨lines, header⟩ := @nodeText_header style int64 scope node
    exact ⟨node, lines, source, rfl, rfl, header⟩
  case distinct => rw [Progress.identifiers, (build_declares_in_order built).1]
  case denoted =>
    exact ⟨apart.nodup_identifiers finished, fun message source field shown =>
      apart.denotes finished loaded stored (warned_of_build built) source shown⟩

-----------------------------------------------------------------------------------------
-- A crate of items
-----------------------------------------------------------------------------------------

/-- A message with a field of a listed type, one of a type that is not listed, and a map. -/
def crateText : String :=
  "\x7b\"nested\":\x7b\"store\":\x7b\"nested\":\x7b\"Crate\":\x7b\"fields\":\x7b"
    ++ "\"item\":\x7b\"type\":\"Item\"\x7d,\"owner\":\x7b\"type\":\"Owner\"\x7d,"
    ++ "\"labels\":\x7b\"keyType\":\"string\",\"type\":\"int32\"\x7d\x7d\x7d,"
    ++ "\"Item\":\x7b\"fields\":\x7b\x7d\x7d,\"Owner\":\x7b\"fields\":\x7b\x7d\x7d\x7d\x7d\x7d\x7d"

def crate : Message where
  name := "store.Crate"
  fields := [
    { name := "item", type := .named "store.Item", required := false },
    { name := "owner", type := .named "store.Owner", required := false },
    { name := "labels", type := .scalar .int32, mapKey := some .string }]

def crateScope : Scope where
  catalog :=
    (scopeOf
      [.message crate, .message { name := "store.Item" },
        .message { name := "store.Owner" }]).catalog
  listed := [.message crate, .message { name := "store.Item" }]

/-- The references of the crate denote what they were resolved to. -/
theorem crate_identifiers
    : ∃ progress,
        exec (build jsDoc .text crateScope) {} = (.ok ⟨⟩, progress)
        ∧ progress.identifiers = ["LabelsEntry_string_int32", "Crate", "Item"]
        ∧ ∀ field ∈ shownFields crate,
            progress.Denotes jsDoc .text crateScope crate field := by
  have loaded : Descriptor.Loaded crateScope.catalog := loaded_of_text crateText (by decide +kernel)
  have stored : ∀ node ∈ crateScope.listed, node ∈ crateScope.catalog.nodes := by decide
  have succeeds : (exec (build jsDoc .text crateScope) {}).1 = .ok ⟨⟩ := by decide +kernel
  have apart : Unambiguous crateScope := by decide +kernel
  have built
      : exec (build jsDoc .text crateScope) {}
        = (.ok ⟨⟩, (exec (build jsDoc .text crateScope) {}).2) :=
    Prod.ext succeeds rfl
  obtain ⟨-, -, denoted⟩ := identifiers_unambiguous loaded stored built
  have listed : .message crate ∈ crateScope.listed := List.mem_cons_self
  exact ⟨_, built, by decide +kernel, (denoted apart).2 crate (.listed listed)⟩

/-- A message that refers to one of two types of one simple name. -/
def clashText : String :=
  "\x7b\"nested\":\x7b\"a\":\x7b\"nested\":\x7b\"Item\":\x7b\"fields\":\x7b"
    ++ "\"id\":\x7b\"type\":\"string\"\x7d\x7d\x7d\x7d\x7d,"
    ++ "\"b\":\x7b\"nested\":\x7b\"Item\":\x7b\"fields\":\x7b\x7d\x7d\x7d\x7d,"
    ++ "\"Crate\":\x7b\"fields\":\x7b\"item\":\x7b\"type\":\"b.Item\"\x7d\x7d\x7d\x7d\x7d"

def clashScope : Scope :=
  scopeOf
    [.message { name := "a.Item", fields := [{ name := "id", type := .scalar .string }] },
      .message { name := "b.Item" },
      .message
        { name := "Crate",
          fields := [{ name := "item", type := .named "b.Item", required := false }] }]

/-- Two types of one simple name are both declared under it, without an error. -/
theorem identifiers_clash
    : Descriptor.Loaded clashScope.catalog
      ∧ (∀ node ∈ clashScope.listed, node ∈ clashScope.catalog.nodes)
      ∧ ∃ progress,
          exec (build jsDoc .text clashScope) {} = (.ok ⟨⟩, progress)
          ∧ progress.registry.entries
            = [("a.Item", "export interface Item \x7b\n  id: string;\n\x7d"),
                ("b.Item", "export interface Item \x7b\x7d"),
                ("Crate", "export interface Crate \x7b\n  item?: Item;\n\x7d")]
          ∧ ¬ progress.identifiers.Nodup := by
  have loaded : Descriptor.Loaded clashScope.catalog := loaded_of_text clashText (by decide +kernel)
  have succeeds : (exec (build jsDoc .text clashScope) {}).1 = .ok ⟨⟩ := by decide +kernel
  refine ⟨loaded, fun node member => member, _, Prod.ext succeeds rfl, ?_, ?_⟩
  · decide +kernel
  · decide +kernel

end ProtoSchema.TypeScript
