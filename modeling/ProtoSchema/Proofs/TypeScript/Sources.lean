import ProtoSchema.Proofs.Schema.Slots
import ProtoSchema.Proofs.TypeScript.DeclarationOrder

/-! What a declaration comes from. A run declares listed types and the entries of their maps, each
with the text that it has in the schema; what a declaration refers to was found, and it is either
listed or warned about.
-/

namespace ProtoSchema.TypeScript

open Schema
open Execution

variable {style : CommentStyle} {int64 : Integer64} {scope : Scope}
  {progress before after : Progress}

/-- A type that may be declared: a listed one, or the entry of a map that a listed message shows. -/
inductive Source (scope : Scope) : Node → Prop
  | listed {node : Node} (member : node ∈ scope.listed) : Source scope node
  | entry {message : Message} {field : Field} {key : Scalar}
    (member : .message message ∈ scope.listed) (shown : field ∈ shownFields message)
    (keyed : field.mapKey = some key)
    : Source scope (.message (MapEntry.message message field key))

/-- The declaration refers to a type of this name that is not listed. -/
inductive Dangles (scope : Scope) : Node → String → Prop
  | field {message : Message} {field : Field} {name : String}
    (shown : field ∈ shownFields message) (keyless : field.mapKey = none)
    (undeclared : undeclared? scope field.type = some name)
    : Dangles scope (.message message) name

/-- The declaration can be written: the members of its groups are fields, and what its fields
refer to is found.
-/
inductive Ready (scope : Scope) : Node → Prop
  | enumeration (content : Enumeration) : Ready scope (.enumeration content)
  | message {content : Message}
    (groups
      : ∀ group, content.HasGroup group → ∃ members, content.members group = .ok members)
    (finds : ∀ field ∈ shownFields content, field.mapKey = none → Finds scope field.type)
    : Ready scope (.message content)

/-- What a declaration depends on is taken care of: the types that it leaves undeclared are warned
about, and the entries of its maps are declared.
-/
structure Progress.Covers (progress : Progress) (scope : Scope) (node : Node) : Prop where
  warned : ∀ name, Dangles scope node name → name ∈ progress.warned
  entries : ∀ name ∈ entryNames node, name ∈ progress.registry.keys

/-- Every declaration has a source, whose text it is, and every warning has a source that it is
about.
-/
structure Progress.Sound (progress : Progress) (style : CommentStyle) (int64 : Integer64)
    (scope : Scope)
    : Prop where
  declared
    : ∀ {name text},
        progress.registry.get? name = some text
        → ∃ node,
            Source scope node
            ∧ node.name = name
            ∧ text = nodeText style int64 scope node
            ∧ Ready scope node
            ∧ progress.Covers scope node
  warned
    : ∀ {name}, name ∈ progress.warned → ∃ node, Source scope node ∧ Dangles scope node name

theorem Progress.sound_start : Progress.Sound {} style int64 scope where
  declared := fun found => by simp at found
  warned := fun member => absurd member List.not_mem_nil

/-- Every declared name is that of a source. -/
theorem Progress.Sound.source_of_mem (sound : progress.Sound style int64 scope) {name : String}
    (declared : name ∈ progress.registry.keys)
    : ∃ node, Source scope node ∧ node.name = name := by
  obtain ⟨_, found⟩ := OrderedMap.mem_keys_iff.mp declared
  obtain ⟨node, source, named, -⟩ := sound.declared found
  exact ⟨node, source, named⟩

/-- Neither declarations nor warnings are lost. -/
structure Progress.Grows (before after : Progress) : Prop where
  warned : before.warned ⊆ after.warned
  declared : before.registry.keys ⊆ after.registry.keys

theorem Progress.Covers.mono {node : Node} (covers : before.Covers scope node)
    (grows : before.Grows after)
    : after.Covers scope node :=
  ⟨fun name dangles => grows.warned (covers.warned name dangles),
    fun name member => grows.declared (covers.entries name member)⟩

-----------------------------------------------------------------------------------------
-- Values
-----------------------------------------------------------------------------------------

theorem Progress.mem_warned_refer {type : FieldType} {name : String}
    : name ∈ (progress.refer scope type).warned
      ↔ name ∈ progress.warned ∨ undeclared? scope type = some name := by
  unfold Progress.refer
  cases undeclared? scope type with
  | none => simp
  | some other =>
      simp only [Progress.warn, Option.some.injEq]
      split
      · next known =>
          refine ⟨.inl, fun either => either.elim id ?_⟩
          rintro rfl
          exact List.contains_iff_mem.mp known
      · rw [List.mem_append, List.mem_singleton, eq_comm]

/-- Values warn about the types that they leave undeclared, by induction on the values. -/
theorem Progress.mem_warned_foldl_refer {types : List FieldType} {name : String}
    : name ∈ (types.foldl (Progress.refer scope) progress).warned
      ↔ name ∈ progress.warned ∨ ∃ type ∈ types, undeclared? scope type = some name := by
  induction types generalizing progress with
  | nil => simp
  | cons type rest ih => simp [ih, Progress.mem_warned_refer, or_assoc]

theorem Progress.grows_refer (progress : Progress) (type : FieldType)
    : progress.Grows (progress.refer scope type) where
  warned := fun _ member => Progress.mem_warned_refer.mpr (.inl member)
  declared := by rw [Progress.registry_refer]; exact List.Subset.refl _

/-- Writing the types of values of a source keeps every warning justified. -/
theorem Progress.Sound.foldl_refer {node : Node} {types : List FieldType}
    (sound : progress.Sound style int64 scope) (source : Source scope node)
    (dangles
      : ∀ type ∈ types, ∀ name, undeclared? scope type = some name → Dangles scope node name)
    : (types.foldl (Progress.refer scope) progress).Sound style int64 scope := by
  have grows : progress.Grows (types.foldl (Progress.refer scope) progress) := by
    refine ⟨fun _ member => Progress.mem_warned_foldl_refer.mpr (.inl member), ?_⟩
    rw [Progress.registry_foldl_refer]
    exact List.Subset.refl _
  refine ⟨fun found => ?_, fun member => ?_⟩
  · rw [Progress.registry_foldl_refer] at found
    obtain ⟨declared, origin, named, text, ready, covers⟩ := sound.declared found
    exact ⟨declared, origin, named, text, ready, covers.mono grows⟩
  · rcases Progress.mem_warned_foldl_refer.mp member with earlier | ⟨type, value, undeclared⟩
    · exact sound.warned earlier
    · exact ⟨node, source, dangles type value _ undeclared⟩

theorem Progress.grows_enter (progress : Progress) (name text : String)
    : progress.Grows (progress.enter name text) where
  warned := List.Subset.refl _
  declared := by
    rw [Progress.keys_enter]
    exact fun _ member => mem_addName.mpr (.inl member)

/-- One more declaration of a source that is covered keeps every declaration justified. -/
theorem Progress.Sound.enter {node : Node} (sound : progress.Sound style int64 scope)
    (source : Source scope node) (ready : Ready scope node) (covers : progress.Covers scope node)
    : (progress.enter node.name (nodeText style int64 scope node)).Sound style int64 scope := by
  have grows := progress.grows_enter node.name (nodeText style int64 scope node)
  refine ⟨fun {name text} found => ?_, fun member => sound.warned member⟩
  rw [Progress.enter, OrderedMap.get?_insert] at found
  split at found
  · next same =>
      cases found
      exact ⟨node, source, same.symm, rfl, ready, covers.mono grows⟩
  · obtain ⟨declared, origin, named, same, able, covered⟩ := sound.declared found
    exact ⟨declared, origin, named, same, able, covered.mono grows⟩

-----------------------------------------------------------------------------------------
-- Fields
-----------------------------------------------------------------------------------------

/-- The declaration of an entry shows its key and its value. -/
theorem shownFields_entry (message : Message) (field : Field) (key : Scalar)
    : shownFields (MapEntry.message message field key)
      = (MapEntry.message message field key).fields :=
  rfl

/-- The entry of a map can be written if its value is found. -/
theorem ready_entry (message : Message) {field : Field} (key : Scalar)
    (finds : Finds scope field.type)
    : Ready scope (.message (MapEntry.message message field key)) := by
  refine .message (fun group present => ?_) fun inner shown _ => ?_
  · rcases present with ⟨inner, member, grouped⟩
    cases (MapEntry.plain_of_mem member).2.symm.trans grouped
  · rw [shownFields_entry] at shown
    rcases MapEntry.mem_fields.mp shown with rfl | rfl
    · trivial
    · exact finds

/-- Declaring a message without maps and groups keeps every declaration justified, by cases on
whether it is declared already.
-/
theorem Progress.Sound.addEntry {entry : Message} (sound : progress.Sound style int64 scope)
    (source : Source scope (.message entry)) (plain : shownFields entry = entry.fields)
    (keyless : ∀ field ∈ entry.fields, field.mapKey = none)
    (ready : progress.registry.contains entry.name ≠ true → Ready scope (.message entry))
    : (progress.addEntry style int64 scope entry).Sound style int64 scope := by
  unfold Progress.addEntry
  split
  · exact sound
  · next unknown =>
      have dangles (type : FieldType) (value : type ∈ entry.fields.map Field.type) (name : String)
          (undeclared : undeclared? scope type = some name)
          : Dangles scope (.message entry) name := by
        obtain ⟨field, member, rfl⟩ := List.mem_map.mp value
        exact .field (plain ▸ member) (keyless field member) undeclared
      refine (sound.foldl_refer source dangles).enter source (ready unknown) ⟨?_, ?_⟩
      · intro name dangling
        cases dangling with
        | @field _ field _ shown _ undeclared =>
            rw [plain] at shown
            exact Progress.mem_warned_foldl_refer.mpr
              (.inr ⟨field.type, List.mem_map_of_mem shown, undeclared⟩)
      · intro name member
        obtain ⟨field, shown, named⟩ := mem_entryNames.mp member
        rw [plain] at shown
        rw [MapEntry.name?, keyless field shown] at named
        cases named

theorem Progress.grows_addEntry (progress : Progress) (entry : Message)
    : progress.Grows (progress.addEntry style int64 scope entry) := by
  refine ⟨?_, ?_⟩
  · intro name member
    unfold Progress.addEntry
    split
    · exact member
    · exact Progress.mem_warned_foldl_refer.mpr (.inl member)
  · rw [Progress.keys_addEntry]
    exact fun _ member => mem_addName.mpr (.inl member)

theorem Progress.grows_addField (message : Message) (progress : Progress) (field : Field)
    : progress.Grows (progress.addField style int64 scope message field) := by
  unfold Progress.addField
  split
  · exact progress.grows_addEntry _
  · exact progress.grows_refer _

/-- Writing the type of a shown field keeps every declaration justified, by cases on whether it is
a map.
-/
theorem Progress.Sound.addField {message : Message} {field : Field}
    (sound : progress.Sound style int64 scope) (member : .message message ∈ scope.listed)
    (shown : field ∈ shownFields message) (accepted : progress.AcceptsField scope message field)
    : (progress.addField style int64 scope message field).Sound style int64 scope := by
  unfold Progress.AcceptsField at accepted
  unfold Progress.addField
  cases keyed : field.mapKey with
  | some key =>
      simp only [keyed] at accepted
      refine sound.addEntry (.entry member shown keyed) (shownFields_entry message field key)
        (fun inner present => (MapEntry.plain_of_mem present).1) fun unknown => ?_
      rw [MapEntry.name_message] at unknown
      exact ready_entry message key (accepted.resolve_left unknown)
  | none =>
      have dangles (type : FieldType) (value : type ∈ [field.type]) (name : String)
          (undeclared : undeclared? scope type = some name)
          : Dangles scope (.message message) name := by
        rw [List.mem_singleton.mp value] at undeclared
        exact .field shown keyed undeclared
      exact sound.foldl_refer (.listed member) dangles

-----------------------------------------------------------------------------------------
-- Declarations
-----------------------------------------------------------------------------------------

/-- The properties of a message are accepted if the members of its groups are fields and the shown
fields are accepted one after the other, by induction on the properties.
-/
theorem along_slots_iff {message : Message} {slots : List Message.Slot}
    : Along (Progress.AcceptsSlot style int64 scope message)
        (Progress.addSlot style int64 scope message) progress slots
      ↔ (∀ group, .group group ∈ slots → ∃ members, message.members group = .ok members)
        ∧ Along (Progress.AcceptsField scope message)
            (Progress.addField style int64 scope message) progress
            (slots.flatMap (slotFields message)) := by
  induction slots generalizing progress with
  | nil => simp [Along]
  | cons slot rest ih =>
      rw [List.flatMap_cons, Along.append, Along, ih, Progress.AcceptsSlot, Progress.addSlot]
      constructor
      · rintro ⟨⟨head, first⟩, tail, later⟩
        refine ⟨fun group member => ?_, first, later⟩
        rcases List.mem_cons.mp member with same | member
        · exact head group same.symm
        · exact tail group member
      · rintro ⟨groups, first, later⟩
        refine ⟨⟨fun group same => ?_, first⟩, fun group member => ?_, later⟩
        · exact groups group (same ▸ List.mem_cons_self)
        · exact groups group (List.mem_cons_of_mem slot member)

theorem acceptsContent_message {message : Message}
    : progress.AcceptsContent style int64 scope (.message message)
      ↔ (∀ group, message.HasGroup group → ∃ members, message.members group = .ok members)
        ∧ Along (Progress.AcceptsField scope message)
            (Progress.addField style int64 scope message) progress (shownFields message) := by
  simp only [← Message.group_mem_slots]
  exact along_slots_iff

/-- Fields that are accepted one after the other refer to what is found, maps apart; by induction
on the fields.
-/
theorem finds_of_along {message : Message} {fields : List Field}
    (along
      : Along (Progress.AcceptsField scope message) (Progress.addField style int64 scope message)
          progress fields)
    : ∀ field ∈ fields, field.mapKey = none → Finds scope field.type := by
  induction fields generalizing progress with
  | nil => exact fun field member => absurd member List.not_mem_nil
  | cons first rest ih =>
      intro field member keyless
      rcases List.mem_cons.mp member with rfl | later
      · have accepted := along.1
        rw [Progress.AcceptsField, keyless] at accepted
        exact accepted
      · exact ih along.2 field later keyless

/-- A field that is no map leads to a warning about what it leaves undeclared, by induction on the
fields.
-/
theorem mem_warned_foldl_addField {message : Message} {fields : List Field} {field : Field}
    {name : String} (keyless : field.mapKey = none)
    (undeclared : undeclared? scope field.type = some name)
    (warned : field ∈ fields ∨ name ∈ progress.warned)
    : name ∈ (fields.foldl (Progress.addField style int64 scope message) progress).warned := by
  induction fields generalizing progress with
  | nil => exact warned.resolve_left List.not_mem_nil
  | cons first rest ih =>
      rw [List.foldl_cons]
      apply ih
      rcases warned with member | earlier
      · rcases List.mem_cons.mp member with rfl | later
        · rw [Progress.addField, keyless]
          exact .inr (Progress.mem_warned_refer.mpr (.inr undeclared))
        · exact .inl later
      · exact .inr ((progress.grows_addField message first).warned earlier)

/-- Writing a declaration that is accepted makes it ready and covers it. -/
theorem Progress.ready_of_accepts {node : Node}
    (accepted : progress.AcceptsContent style int64 scope node)
    : Ready scope node
      ∧ (progress.addContent style int64 scope node).Covers scope node := by
  cases node with
  | enumeration content =>
      refine ⟨.enumeration content, fun name dangles => ?_, fun name none_ => ?_⟩
      · cases dangles
      · exact absurd none_ List.not_mem_nil
  | message content =>
      obtain ⟨groups, along⟩ := acceptsContent_message.mp accepted
      refine ⟨.message groups (finds_of_along along), fun name dangles => ?_, ?_⟩
      · cases dangles with
        | field shown keyless undeclared =>
            rw [Progress.addContent_message]
            exact mem_warned_foldl_addField keyless undeclared (.inl shown)
      · intro name member
        rw [Progress.keys_addContent]
        exact mem_foldl_addName.mpr (.inr member)

/-- Writing the declaration of a listed type keeps every declaration justified. -/
theorem Progress.Sound.addContent {node : Node} (sound : progress.Sound style int64 scope)
    (member : node ∈ scope.listed) (accepted : progress.AcceptsContent style int64 scope node)
    : (progress.addContent style int64 scope node).Sound style int64 scope := by
  cases node with
  | enumeration content => exact sound
  | message content =>
      rw [Progress.addContent_message]
      exact (acceptsContent_message.mp accepted).2.preserves
        (fun progress => progress.Sound style int64 scope)
        (fun _ _ shown accepted sound => sound.addField member shown accepted) sound

/-- Declaring a listed type keeps every declaration justified. -/
theorem Progress.Sound.addNode {node : Node} (sound : progress.Sound style int64 scope)
    (member : node ∈ scope.listed) (accepted : progress.AcceptsNode style int64 scope node)
    : (progress.addNode style int64 scope node).Sound style int64 scope := by
  unfold Progress.addNode
  split
  · exact sound
  · next unknown =>
      have content := (accepted.resolve_left unknown).1
      obtain ⟨ready, covers⟩ := Progress.ready_of_accepts content
      exact (sound.addContent member content).enter (.listed member) ready covers

/-- A run that succeeds leaves every declaration justified. -/
theorem build_sound (built : exec (build style int64 scope) {} = (.ok ⟨⟩, progress))
    : progress.Sound style int64 scope := by
  obtain ⟨along, rfl⟩ := exec_build_ok.mp built
  exact along.preserves (fun progress => progress.Sound style int64 scope)
    (fun _ _ member accepted sound => sound.addNode member accepted) Progress.sound_start

/-- A run that succeeds declares every listed type. -/
theorem build_declares (built : exec (build style int64 scope) {} = (.ok ⟨⟩, progress))
    {node : Node} (member : node ∈ scope.listed)
    : node.name ∈ progress.registry.keys := by
  obtain ⟨_, rfl⟩ := exec_build_ok.mp built
  rw [Progress.keys_foldl_addNode]
  exact name_mem_foldl_declareName (.inl member)

-----------------------------------------------------------------------------------------
-- Sources that are known by their names
-----------------------------------------------------------------------------------------

/-- The entries of maps keep apart: maps of listed messages whose entries have one name have equal
entries, and no listed type has the name of an entry.
-/
structure EntriesApart (scope : Scope) : Prop where
  entries
    : ∀ {first second : Message} {left right leftKey rightKey},
        .message first ∈ scope.listed
        → .message second ∈ scope.listed
        → left ∈ first.fields
        → right ∈ second.fields
        → left.mapKey = some leftKey
        → right.mapKey = some rightKey
        → MapEntry.name first left leftKey = MapEntry.name second right rightKey
        → MapEntry.message first left leftKey = MapEntry.message second right rightKey
  unlisted
    : ∀ {message : Message} {field key},
        .message message ∈ scope.listed
        → field ∈ message.fields
        → field.mapKey = some key
        → ∀ node ∈ scope.listed, node.name ≠ MapEntry.name message field key

/-- Listed types of one name are the same. -/
def ListedOnce (scope : Scope) : Prop :=
  ∀ first ∈ scope.listed, ∀ second ∈ scope.listed, first.name = second.name → first = second

/-- What the declaration of a message shows is among its fields, by cases on the property. -/
theorem mem_of_mem_shownFields {message : Message} {field : Field}
    (shown : field ∈ shownFields message)
    : field ∈ message.fields := by
  obtain ⟨slot, member, inside⟩ := List.mem_flatMap.mp shown
  cases slot with
  | single other =>
      rw [List.mem_singleton.mp inside]
      exact (Message.single_mem_slots.mp member).1
  | group group =>
      simp only [slotFields, groupFields] at inside
      split at inside
      · next members found => exact Message.mem_of_mem_members found inside
      · exact absurd inside List.not_mem_nil

/-- A source is known by its name, by cases on both sources. -/
theorem Source.unique {first second : Node} (apart : EntriesApart scope) (once : ListedOnce scope)
    (left : Source scope first) (right : Source scope second) (named : first.name = second.name)
    : first = second := by
  cases left with
  | listed member =>
      cases right with
      | listed other => exact once _ member _ other named
      | entry owner shown keyed =>
          rw [Node.name, MapEntry.name_message] at named
          exact absurd named (apart.unlisted owner (mem_of_mem_shownFields shown) keyed _ member)
  | entry owner shown keyed =>
      cases right with
      | listed member =>
          rw [Node.name, MapEntry.name_message] at named
          exact absurd named.symm
            (apart.unlisted owner (mem_of_mem_shownFields shown) keyed _ member)
      | entry other otherShown otherKeyed =>
          rw [Node.name, Node.name, MapEntry.name_message, MapEntry.name_message] at named
          rw [apart.entries owner other (mem_of_mem_shownFields shown)
            (mem_of_mem_shownFields otherShown) keyed otherKeyed named]

end ProtoSchema.TypeScript
