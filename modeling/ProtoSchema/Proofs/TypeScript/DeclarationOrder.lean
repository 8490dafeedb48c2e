import ProtoSchema.Proofs.Schema.Slots
import ProtoSchema.Proofs.TypeScript.Rendering

/-! The order of declarations. Each listed type that is not declared yet adds the entries of its
maps that are not declared yet, in the order of its fields, and then itself; nothing else is
declared.
-/

namespace ProtoSchema.TypeScript

open Schema
open Execution

variable {style : CommentStyle} {int64 : Integer64} {scope : Scope} {progress last : Progress}

/-- The names with one more at the end, unless it is among them. -/
def addName (known : List String) (name : String) : List String :=
  if name ∈ known then known else known ++ [name]

/-- The fields of a message in order, with the members of each group in the place of the first
field that names it.
-/
def orderedFields (message : Message) : List Field :=
  (Message.placed message.fields).flatMap fun field => slotFields message (Message.slotOf field)

/-- The names of the entries of the maps of a type, in order. -/
def entryNames : Node → List String
  | .enumeration _ => []
  | .message content => (orderedFields content).filterMap (MapEntry.name? content)

/-- The names that are declared once a type is, given those before: the entries of its maps come
first, and then the type itself.
-/
def declareName (known : List String) (node : Node) : List String :=
  if node.name ∈ known then known else (entryNames node ++ [node.name]).foldl addName known

/-- The names that are declared for some types, in order. -/
def declarationOrder (nodes : List Node) : List String :=
  nodes.foldl declareName []

/-- These are the fields that have a type in the declaration of the message. -/
theorem orderedFields_eq (message : Message) : orderedFields message = shownFields message := by
  rw [shownFields, Message.slots_eq_placed, List.flatMap_map]
  rfl

theorem mem_entryNames {message : Message} {name : String}
    : name ∈ entryNames (.message message)
      ↔ ∃ field ∈ shownFields message, MapEntry.name? message field = some name := by
  rw [entryNames, orderedFields_eq, List.mem_filterMap]

theorem mem_addName {known : List String} {name other : String}
    : other ∈ addName known name ↔ other ∈ known ∨ other = name := by
  unfold addName
  split
  · next present => exact ⟨.inl, fun either => either.elim id fun same => same ▸ present⟩
  · simp

theorem mem_foldl_addName {known names : List String} {other : String}
    : other ∈ names.foldl addName known ↔ other ∈ known ∨ other ∈ names := by
  induction names generalizing known with
  | nil => simp
  | cons name rest ih => rw [List.foldl_cons, ih, mem_addName, List.mem_cons, or_assoc]

theorem mem_declareName {known : List String} {node : Node}
    : node.name ∈ declareName known node := by
  unfold declareName
  split
  · assumption
  · rw [mem_foldl_addName]
    simp

theorem declareName_subset (known : List String) (node : Node)
    : known ⊆ declareName known node := by
  intro name member
  unfold declareName
  split
  · exact member
  · exact mem_foldl_addName.mpr (.inl member)

/-- Every type is declared under its name, by induction on the types. -/
theorem name_mem_foldl_declareName {node : Node} {nodes : List Node} {known : List String}
    (member : node ∈ nodes ∨ node.name ∈ known)
    : node.name ∈ nodes.foldl declareName known := by
  induction nodes generalizing known with
  | nil => exact member.resolve_left List.not_mem_nil
  | cons first rest ih =>
      apply ih
      rcases member with listed | declared
      · rcases List.mem_cons.mp listed with rfl | later
        · exact .inr mem_declareName
        · exact .inl later
      · exact .inr (declareName_subset known first declared)

-----------------------------------------------------------------------------------------
-- The names that a run declares
-----------------------------------------------------------------------------------------

theorem Progress.contains_iff {name : String}
    : progress.registry.contains name = true ↔ name ∈ progress.registry.keys :=
  Entries.get?_isSome_iff

theorem Progress.keys_enter (progress : Progress) (name text : String)
    : (progress.enter name text).registry.keys = addName progress.registry.keys name :=
  Entries.keys_insert name text progress.registry.entries

theorem Progress.keys_addEntry (progress : Progress) (entry : Message)
    : (progress.addEntry style int64 scope entry).registry.keys
      = addName progress.registry.keys entry.name := by
  unfold Progress.addEntry
  split
  · next known => rw [addName, if_pos (Progress.contains_iff.mp known)]
  · rw [Progress.keys_enter, Progress.registry_foldl_refer]

theorem Progress.keys_addField (message : Message) (progress : Progress) (field : Field)
    : (progress.addField style int64 scope message field).registry.keys
      = (MapEntry.name? message field).toList.foldl addName progress.registry.keys := by
  unfold Progress.addField MapEntry.name?
  cases field.mapKey with
  | some key =>
      rw [Progress.keys_addEntry, MapEntry.name_message]
      rfl
  | none => exact congrArg OrderedMap.keys (Progress.registry_refer progress field.type)

/-- Fields declare the entries of the maps among them, by induction on the fields. -/
theorem Progress.keys_foldl_addField (message : Message) (fields : List Field)
    (progress : Progress)
    : (fields.foldl (Progress.addField style int64 scope message) progress).registry.keys
      = (fields.filterMap (MapEntry.name? message)).foldl addName progress.registry.keys := by
  induction fields generalizing progress with
  | nil => rfl
  | cons field rest ih =>
      rw [List.foldl_cons, ih, Progress.keys_addField]
      cases named : MapEntry.name? message field <;> simp [named]

theorem Progress.addContent_message (message : Message) (progress : Progress)
    : progress.addContent style int64 scope (.message message)
      = (shownFields message).foldl (Progress.addField style int64 scope message) progress := by
  rw [shownFields, List.foldl_flatMap]
  rfl

theorem Progress.keys_addContent (progress : Progress) (node : Node)
    : (progress.addContent style int64 scope node).registry.keys
      = (entryNames node).foldl addName progress.registry.keys := by
  cases node with
  | enumeration content => rfl
  | message content =>
      rw [Progress.addContent_message, entryNames, orderedFields_eq]
      exact Progress.keys_foldl_addField content (shownFields content) progress

theorem Progress.keys_addNode (progress : Progress) (node : Node)
    : (progress.addNode style int64 scope node).registry.keys
      = declareName progress.registry.keys node := by
  unfold Progress.addNode declareName
  by_cases known : node.name ∈ progress.registry.keys
  · rw [if_pos (Progress.contains_iff.mpr known), if_pos known]
  · have fresh : ¬ progress.registry.contains node.name = true := fun present =>
      known (Progress.contains_iff.mp present)
    rw [if_neg fresh, if_neg known, Progress.keys_enter, Progress.keys_addContent,
      List.foldl_append]
    rfl

/-- A run declares the names of the types one after the other. -/
theorem Progress.keys_foldl_addNode (nodes : List Node) (progress : Progress)
    : (nodes.foldl (Progress.addNode style int64 scope) progress).registry.keys
      = nodes.foldl declareName progress.registry.keys :=
  (List.foldl_hom (fun progress => progress.registry.keys)
    fun progress node => (Progress.keys_addNode progress node).symm).symm

/-- Types that are declared already are accepted and change nothing, by induction on the types. -/
theorem declared_again {nodes : List Node}
    (declared : ∀ node ∈ nodes, node.name ∈ progress.registry.keys)
    : Along (Progress.AcceptsNode style int64 scope) (Progress.addNode style int64 scope)
        progress nodes
      ∧ nodes.foldl (Progress.addNode style int64 scope) progress = progress := by
  induction nodes with
  | nil => exact ⟨trivial, rfl⟩
  | cons node rest ih =>
      have known := Progress.contains_iff.mpr (declared node List.mem_cons_self)
      have same : progress.addNode style int64 scope node = progress := by
        rw [Progress.addNode, if_pos known]
      obtain ⟨along, kept⟩ := ih fun other member =>
        declared other (List.mem_cons_of_mem node member)
      rw [List.foldl_cons, same, Along, same]
      exact ⟨⟨.inl known, along⟩, kept⟩

/-- Building once more changes nothing. -/
theorem exec_build_again (built : exec (build style int64 scope) {} = (.ok ⟨⟩, progress))
    : exec (build style int64 scope) progress = (.ok ⟨⟩, progress) := by
  obtain ⟨_, rfl⟩ := exec_build_ok.mp built
  have again := @declared_again style int64 scope
    (scope.listed.foldl (Progress.addNode style int64 scope) {}) scope.listed (by
      intro node member
      rw [Progress.keys_foldl_addNode]
      exact name_mem_foldl_declareName (.inl member))
  exact exec_build_ok.mpr ⟨again.1, again.2.symm⟩

end ProtoSchema.TypeScript
