import ProtoSchema.Proofs.Execution
import ProtoSchema.TypeScript.Pass

/-! What a conversion to TypeScript writes and how it advances. The text of a declaration depends
on the schema alone; what was declared before decides only whether a type is declared again. So a
run that succeeds is known by the texts, by the changes that each type makes to the progress, and
by the conditions under which these types are accepted.
-/

namespace ProtoSchema.TypeScript

open Schema
open Execution

section Texts

variable (style : CommentStyle) (int64 : Integer64) (scope : Scope)

/-- The type of a single value; nothing for a reference that denotes no type. -/
def baseText : FieldType → String
  | .scalar kind => (kind.typeScript int64).name
  | .named reference => ((scope.find? reference).map Node.simpleName).getD ""

/-- The type of a field: that of its values, or that of the entries of a map. -/
def fieldText (message : Message) (field : Field) : String :=
  match field.mapKey with
  | some key => arrayType field (MapEntry.message message field key).simpleName
  | none => arrayType field (baseText int64 scope field.type)

/-- The members of a group; none where the group names one that is no field. -/
def groupFields (message : Message) (group : String) : List Field :=
  match message.members group with
  | .ok members => members
  | .error _ => []

/-- The fields that have a type in a property of the message. -/
def slotFields (message : Message) : Message.Slot → List Field
  | .single field => [field]
  | .group group => groupFields message group

/-- The fields that have a type in the declaration of the message, in order. -/
def shownFields (message : Message) : List Field :=
  message.slots.flatMap (slotFields message)

/-- The property for a field or for a group. -/
def slotText (message : Message) : Message.Slot → String
  | .single field => printProperty style field (fieldText int64 scope message field)
  | .group group =>
      printGroup style message group
        ((groupFields message group).map (fieldText int64 scope message))

def messageText (message : Message) : String :=
  printInterface style message (message.slots.map (slotText style int64 scope message))

/-- The declaration of a type. -/
def nodeText : Node → String
  | .enumeration content => printEnumeration style content
  | .message content => messageText style int64 scope content

end Texts

-----------------------------------------------------------------------------------------
-- How types advance the progress
-----------------------------------------------------------------------------------------

/-- The name is that of a listed type. -/
def isListed (scope : Scope) (name : String) : Bool :=
  scope.listed.any fun listed => listed.name = name

/-- The name of the type that a value refers to, if that type is not listed. -/
def undeclared? (scope : Scope) : FieldType → Option String
  | .scalar _ => none
  | .named reference =>
      match scope.find? reference with
      | none => none
      | some node => if isListed scope node.name then none else some node.name

/-- The progress after the type of a value was written. -/
def Progress.refer (scope : Scope) (progress : Progress) (type : FieldType) : Progress :=
  match undeclared? scope type with
  | none => progress
  | some name => progress.warn name

/-- The progress with one more declaration. -/
def Progress.enter (progress : Progress) (name text : String) : Progress :=
  { progress with registry := progress.registry.insert name text }

section Changes

variable (style : CommentStyle) (int64 : Integer64) (scope : Scope)

/-- The progress after the entry of a map was declared, if it was not before. -/
def Progress.addEntry (progress : Progress) (entry : Message) : Progress :=
  if progress.registry.contains entry.name then progress
  else
    ((entry.fields.map Field.type).foldl (Progress.refer scope) progress).enter entry.name
      (messageText style int64 scope entry)

/-- The progress after the type of a field was written. -/
def Progress.addField (message : Message) (progress : Progress) (field : Field) : Progress :=
  match field.mapKey with
  | some key => progress.addEntry style int64 scope (MapEntry.message message field key)
  | none => progress.refer scope field.type

/-- The progress after the types in a property were written. -/
def Progress.addSlot (message : Message) (progress : Progress) (slot : Message.Slot) : Progress :=
  (slotFields message slot).foldl (Progress.addField style int64 scope message) progress

/-- The progress after the types in a declaration were written. -/
def Progress.addContent (progress : Progress) : Node → Progress
  | .enumeration _ => progress
  | .message content =>
      content.slots.foldl (Progress.addSlot style int64 scope content) progress

/-- The progress after a type was declared, if it was not before. -/
def Progress.addNode (progress : Progress) (node : Node) : Progress :=
  if progress.registry.contains node.name then progress
  else
    (progress.addContent style int64 scope node).enter node.name
      (nodeText style int64 scope node)

end Changes

-----------------------------------------------------------------------------------------
-- When types are accepted
-----------------------------------------------------------------------------------------

/-- A written type denotes something: it is built in, or its reference is found. -/
def Finds (scope : Scope) : FieldType → Prop
  | .scalar _ => True
  | .named reference => ∃ node, scope.find? reference = some node

/-- The type of a field can be written: what it refers to is found, which does not matter for the
entries of a map that are declared already.
-/
def Progress.AcceptsField (scope : Scope) (message : Message) (progress : Progress)
    (field : Field)
    : Prop :=
  match field.mapKey with
  | some key =>
      progress.registry.contains (MapEntry.name message field key) = true
      ∨ Finds scope field.type
  | none => Finds scope field.type

section Conditions

variable (style : CommentStyle) (int64 : Integer64) (scope : Scope)

/-- A property can be written: the members of a group are fields, and the types of all of them can
be written one after the other.
-/
def Progress.AcceptsSlot (message : Message) (progress : Progress) (slot : Message.Slot) : Prop :=
  (∀ group, slot = .group group → ∃ members, message.members group = .ok members)
  ∧ Along (Progress.AcceptsField scope message) (Progress.addField style int64 scope message)
      progress (slotFields message slot)

/-- What stands in a declaration can be written. -/
def Progress.AcceptsContent (progress : Progress) : Node → Prop
  | .enumeration _ => True
  | .message content =>
      Along (Progress.AcceptsSlot style int64 scope content)
        (Progress.addSlot style int64 scope content) progress content.slots

/-- A type can be declared: it is already, or its content can be written and no entry of a map has
taken its name meanwhile.
-/
def Progress.AcceptsNode (progress : Progress) (node : Node) : Prop :=
  progress.registry.contains node.name = true
  ∨ progress.AcceptsContent style int64 scope node
    ∧ (progress.addContent style int64 scope node).registry.contains node.name = false

end Conditions

-----------------------------------------------------------------------------------------
-- Runs that succeed
-----------------------------------------------------------------------------------------

variable {style : CommentStyle} {int64 : Integer64} {scope : Scope} {progress last : Progress}

/-- Registering succeeds exactly for new names. -/
theorem exec_register_ok {name text : String}
    : exec (register name text) progress = (.ok ⟨⟩, last)
      ↔ progress.registry.contains name = false ∧ last = progress.enter name text := by
  rw [register, exec_get_bind]
  cases known : progress.registry.contains name with
  | true => simp [Registry.register, OrderedMap.insertNew?, known]
  | false =>
      simp only [Registry.register, OrderedMap.insertNew?, known, Bool.false_eq_true, if_false,
        exec_modify, true_and]
      constructor
      · intro same
        cases same
        rfl
      · rintro rfl
        rfl

/-- The type of a value is written exactly if it denotes something, by cases on it. -/
theorem exec_baseType_ok {type : FieldType} {text : String}
    : exec (baseType int64 scope type) progress = (.ok text, last)
      ↔ Finds scope type ∧ text = baseText int64 scope type ∧ last = progress.refer scope type := by
  cases type with
  | scalar kind =>
      simp only [baseType, exec_pure, Finds, baseText, Progress.refer, undeclared?, Prod.mk.injEq,
        Except.ok.injEq, true_and]
      exact and_congr eq_comm eq_comm
  | named reference =>
      rw [baseType, referenceName]
      cases found : scope.find? reference with
      | none => simp [Finds, found]
      | some node =>
          have finds : Finds scope (.named reference) := ⟨node, found⟩
          have text_eq : baseText int64 scope (.named reference) = node.simpleName := by
            simp only [baseText, found, Option.map_some, Option.getD_some]
          rw [and_iff_right finds, text_eq]
          cases listed : isListed scope node.name with
          | true =>
              have stays : progress.refer scope (.named reference) = progress := by
                simp [Progress.refer, undeclared?, found, listed]
              rw [isListed] at listed
              rw [stays]
              simp only [listed, if_true, exec_pure, Prod.mk.injEq, Except.ok.injEq]
              exact and_congr eq_comm eq_comm
          | false =>
              have warns : progress.refer scope (.named reference) = progress.warn node.name := by
                simp [Progress.refer, undeclared?, found, listed]
              rw [isListed] at listed
              rw [warns]
              simp only [listed, Bool.false_eq_true, if_false]
              rw [exec_const_eq_ok]
              simp only [exec_modify, Prod.mk.injEq, true_and]
              rw [and_comm]
              exact and_congr_right fun _ => eq_comm

/-- Writing a value does not declare anything. -/
@[simp] theorem Progress.registry_refer (progress : Progress) (type : FieldType)
    : (progress.refer scope type).registry = progress.registry := by
  unfold Progress.refer
  cases undeclared? scope type with
  | none => rfl
  | some name =>
      simp only [Progress.warn]
      split <;> rfl

@[simp] theorem Progress.registry_foldl_refer (types : List FieldType) (progress : Progress)
    : (types.foldl (Progress.refer scope) progress).registry = progress.registry := by
  induction types generalizing progress with
  | nil => rfl
  | cons type rest ih => rw [List.foldl_cons, ih, Progress.registry_refer]

theorem exec_plainProperty_ok {field : Field} {text : String}
    : exec (plainProperty style int64 scope field) progress = (.ok text, last)
      ↔ Finds scope field.type
        ∧ text = printProperty style field (arrayType field (baseText int64 scope field.type))
        ∧ last = progress.refer scope field.type := by
  rw [plainProperty, exec_map_eq_ok]
  simp only [exec_baseType_ok]
  constructor
  · rintro ⟨_, ⟨finds, rfl, rfl⟩, rfl⟩
    exact ⟨finds, rfl, rfl⟩
  · rintro ⟨finds, rfl, rfl⟩
    exact ⟨_, ⟨finds, rfl, rfl⟩, rfl⟩

/-- A message without maps and groups is declared if it is already or if all that its fields refer
to is found.
-/
theorem exec_declareEntry_ok {entry : Message}
    (plain
      : messageText style int64 scope entry
        = printInterface style entry (entry.fields.map fun field =>
            printProperty style field (arrayType field (baseText int64 scope field.type))))
    : exec (declareEntry style int64 scope entry) progress = (.ok ⟨⟩, last)
      ↔ (progress.registry.contains entry.name = true
          ∨ ∀ field ∈ entry.fields, Finds scope field.type)
        ∧ last = progress.addEntry style int64 scope entry := by
  rw [declareEntry, exec_get_bind, Progress.addEntry]
  cases known : progress.registry.contains entry.name with
  | true =>
      simp only [if_true, exec_pure, Prod.mk.injEq, true_and, true_or]
      exact eq_comm
  | false =>
      simp only [Bool.false_eq_true, if_false, false_or]
      rw [exec_bind_eq_ok]
      simp only [exec_mapM_eq_ok (fun _ _ _ _ => exec_plainProperty_ok), exec_register_ok,
        along_iff_forall, plain, List.foldl_map]
      constructor
      · rintro ⟨_, _, ⟨finds, rfl, rfl⟩, _, rfl⟩
        exact ⟨finds, rfl⟩
      · rintro ⟨finds, rfl⟩
        refine ⟨_, _, ⟨finds, rfl, rfl⟩, ?_, rfl⟩
        rw [← List.foldl_map, Progress.registry_foldl_refer]
        exact known

/-- The fields of an entry stand by themselves, so its declaration shows them as they are. -/
theorem messageText_entry (message : Message) (field : Field) (key : Scalar)
    : messageText style int64 scope (MapEntry.message message field key)
      = printInterface style (MapEntry.message message field key)
          ((MapEntry.message message field key).fields.map fun inner =>
            printProperty style inner (arrayType inner (baseText int64 scope inner.type))) :=
  rfl

/-- The key of an entry always denotes something. -/
theorem finds_entry_iff {message : Message} {field : Field} {key : Scalar}
    : (∀ inner ∈ (MapEntry.message message field key).fields, Finds scope inner.type)
      ↔ Finds scope field.type := by
  simp [MapEntry.message, Finds]

/-- The type of a field is written exactly if it is accepted, by cases on whether it is a map. -/
theorem exec_fieldType_ok {message : Message} {field : Field} {text : String}
    : exec (fieldType style int64 scope message field) progress = (.ok text, last)
      ↔ progress.AcceptsField scope message field
        ∧ text = fieldText int64 scope message field
        ∧ last = progress.addField style int64 scope message field := by
  unfold fieldType Progress.AcceptsField fieldText Progress.addField
  cases field.mapKey with
  | some key =>
      rw [exec_const_eq_ok, exec_declareEntry_ok (messageText_entry message field key),
        MapEntry.name_message, finds_entry_iff, and_assoc]
      exact and_congr_right fun _ => and_comm
  | none =>
      rw [exec_map_eq_ok]
      simp only [exec_baseType_ok]
      constructor
      · rintro ⟨_, ⟨finds, rfl, rfl⟩, rfl⟩
        exact ⟨finds, rfl, rfl⟩
      · rintro ⟨finds, rfl, rfl⟩
        exact ⟨_, ⟨finds, rfl, rfl⟩, rfl⟩

/-- A property is written exactly if it is accepted, by cases on whether it is a group. -/
theorem exec_slotProperty_ok {message : Message} {slot : Message.Slot} {text : String}
    : exec (slotProperty style int64 scope message slot) progress = (.ok text, last)
      ↔ progress.AcceptsSlot style int64 scope message slot
        ∧ text = slotText style int64 scope message slot
        ∧ last = progress.addSlot style int64 scope message slot := by
  unfold slotProperty Progress.AcceptsSlot slotText Progress.addSlot
  cases slot with
  | single field =>
      simp only [slotFields]
      rw [exec_map_eq_ok]
      simp only [exec_fieldType_ok]
      constructor
      · rintro ⟨_, ⟨accepted, rfl, rfl⟩, rfl⟩
        refine ⟨⟨fun _ impossible => ?_, accepted, trivial⟩, rfl, rfl⟩
        cases impossible
      · rintro ⟨⟨_, accepted, _⟩, rfl, rfl⟩
        exact ⟨_, ⟨accepted, rfl, rfl⟩, rfl⟩
  | group group =>
      simp only [slotFields, groupFields]
      cases members : message.members group with
      | error member =>
          simp only [exec_throw]
          constructor
          · intro impossible
            cases impossible
          · rintro ⟨⟨fields, _⟩, _⟩
            obtain ⟨_, found⟩ := fields group rfl
            cases members.symm.trans found
      | ok fields =>
          simp only
          rw [exec_map_eq_ok]
          simp only [exec_mapM_eq_ok (fun _ _ _ _ => exec_fieldType_ok)]
          have present (other : String) (same : Message.Slot.group group = .group other)
              : ∃ members, message.members other = .ok members := by
            cases same
            exact ⟨fields, members⟩
          constructor
          · rintro ⟨_, ⟨along, rfl, rfl⟩, rfl⟩
            exact ⟨⟨present, along⟩, rfl, rfl⟩
          · rintro ⟨⟨_, along⟩, rfl, rfl⟩
            exact ⟨_, ⟨along, rfl, rfl⟩, rfl⟩

/-- A declaration is written exactly if its content is accepted. -/
theorem exec_declaration_ok {node : Node} {text : String}
    : exec (declaration style int64 scope node) progress = (.ok text, last)
      ↔ progress.AcceptsContent style int64 scope node
        ∧ text = nodeText style int64 scope node
        ∧ last = progress.addContent style int64 scope node := by
  cases node with
  | enumeration content =>
      simp only [declaration, exec_pure, Progress.AcceptsContent, nodeText, Progress.addContent,
        Prod.mk.injEq, Except.ok.injEq, true_and]
      exact and_congr eq_comm eq_comm
  | message content =>
      simp only [declaration, Progress.AcceptsContent, nodeText, messageText, Progress.addContent]
      rw [exec_map_eq_ok]
      simp only [exec_mapM_eq_ok (fun _ _ _ _ => exec_slotProperty_ok)]
      constructor
      · rintro ⟨_, ⟨along, rfl, rfl⟩, rfl⟩
        exact ⟨along, rfl, rfl⟩
      · rintro ⟨along, rfl, rfl⟩
        exact ⟨_, ⟨along, rfl, rfl⟩, rfl⟩

/-- A type is declared exactly if it is accepted, by cases on whether it is declared already. -/
theorem exec_declare_ok {node : Node}
    : exec (declare style int64 scope node) progress = (.ok ⟨⟩, last)
      ↔ progress.AcceptsNode style int64 scope node
        ∧ last = progress.addNode style int64 scope node := by
  rw [declare, exec_get_bind, Progress.AcceptsNode, Progress.addNode]
  cases progress.registry.contains node.name with
  | true =>
      simp only [if_true, exec_pure, Prod.mk.injEq, true_and, true_or]
      exact eq_comm
  | false =>
      simp only [Bool.false_eq_true, if_false, false_or]
      rw [exec_bind_eq_ok]
      simp only [exec_declaration_ok, exec_register_ok]
      constructor
      · rintro ⟨_, _, ⟨accepted, rfl, rfl⟩, fresh, rfl⟩
        exact ⟨⟨accepted, fresh⟩, rfl⟩
      · rintro ⟨⟨accepted, fresh⟩, rfl⟩
        exact ⟨_, _, ⟨accepted, rfl, rfl⟩, fresh, rfl⟩

/-- The listed types are declared exactly if they are accepted one after the other. -/
theorem exec_build_ok
    : exec (build style int64 scope) progress = (.ok ⟨⟩, last)
      ↔ Along (Progress.AcceptsNode style int64 scope) (Progress.addNode style int64 scope)
          progress scope.listed
        ∧ last = scope.listed.foldl (Progress.addNode style int64 scope) progress :=
  exec_forM_eq_ok (fun _ _ _ => exec_declare_ok) scope.listed

/-- A conversion succeeds exactly if the listed types are accepted from the start. -/
theorem convert_eq_ok {output : Output}
    : convert style int64 scope = .ok output
      ↔ Along (Progress.AcceptsNode style int64 scope) (Progress.addNode style int64 scope)
          {} scope.listed
        ∧ output = (scope.listed.foldl (Progress.addNode style int64 scope) {}).output := by
  have built := @exec_build_ok style int64 scope {}
  rw [exec] at built
  unfold convert
  cases run : (build style int64 scope).run.run {} with
  | mk outcome progress =>
      rw [run] at built
      cases outcome with
      | error error =>
          simp only [Prod.mk.injEq, reduceCtorEq, false_and, false_iff] at built ⊢
          exact fun accepted => built ⟨accepted.1, rfl⟩
      | ok value =>
          obtain ⟨along, rfl⟩ := built.mp rfl
          simp only [Except.ok.injEq, along, true_and]
          exact eq_comm

end ProtoSchema.TypeScript
