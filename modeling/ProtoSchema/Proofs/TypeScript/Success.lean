import ProtoSchema.Proofs.TypeScript.Sources

/-! When a run succeeds. It leaves every source with a declaration of its own where sources are
known by their names; so it succeeds exactly if each listed type can be declared by itself: the
members of its groups are fields, and what its fields and the values of its maps refer to is found.
-/

namespace ProtoSchema.TypeScript

open Schema
open Execution

variable {style : CommentStyle} {int64 : Integer64} {scope : Scope} {progress : Progress}

-----------------------------------------------------------------------------------------
-- What a run that succeeds has declared
-----------------------------------------------------------------------------------------

/-- The listed types are declared, and every declaration is justified. -/
structure Progress.Finished (progress : Progress) (style : CommentStyle) (int64 : Integer64)
    (scope : Scope)
    : Prop where
  sound : progress.Sound style int64 scope
  listed : ∀ node ∈ scope.listed, node.name ∈ progress.registry.keys

theorem build_finished (built : exec (build style int64 scope) {} = (.ok ⟨⟩, progress))
    : progress.Finished style int64 scope :=
  ⟨build_sound built, fun _ member => build_declares built member⟩

/-- Where sources are known by their names, every source is declared with its own text, by cases on
the source: the entries of a map are declared because their message is.
-/
theorem Progress.Finished.declares_of_unique (finished : progress.Finished style int64 scope)
    (unique
      : ∀ {first second : Node},
          Source scope first → Source scope second → first.name = second.name → first = second)
    {node : Node} (source : Source scope node)
    : progress.registry.get? node.name = some (nodeText style int64 scope node)
      ∧ Ready scope node
      ∧ progress.Covers scope node := by
  have known (node : Node) (source : Source scope node)
      (declared : node.name ∈ progress.registry.keys)
      : progress.registry.get? node.name = some (nodeText style int64 scope node)
        ∧ Ready scope node
        ∧ progress.Covers scope node := by
    obtain ⟨text, found⟩ := OrderedMap.mem_keys_iff.mp declared
    obtain ⟨origin, comes, named, same, ready, covers⟩ := finished.sound.declared found
    cases unique comes source named
    exact ⟨same ▸ found, ready, covers⟩
  refine known node source ?_
  cases source with
  | listed member => exact finished.listed node member
  | @entry message field key owner shown keyed =>
      obtain ⟨-, -, covers⟩ := known _ (.listed owner) (finished.listed _ owner)
      refine covers.entries _ (mem_entryNames.mpr ⟨field, shown, ?_⟩)
      rw [MapEntry.name?, keyed, Option.map_some, Node.name, MapEntry.name_message]

/-- Every source is declared with its own text if listed types of one name are the same and the
entries of maps keep apart.
-/
theorem Progress.Finished.declares (finished : progress.Finished style int64 scope)
    (apart : EntriesApart scope) (once : ListedOnce scope) {node : Node}
    (source : Source scope node)
    : progress.registry.get? node.name = some (nodeText style int64 scope node)
      ∧ Ready scope node
      ∧ progress.Covers scope node :=
  finished.declares_of_unique (fun left right => left.unique apart once right) source

-----------------------------------------------------------------------------------------
-- Types that can be declared
-----------------------------------------------------------------------------------------

/-- A declaration shows the fields that have types of their own, if groups have their members. -/
theorem mem_shownFields_iff {message : Message} {field : Field} (own : message.OwnMembers)
    (groups : ∀ group, message.HasGroup group → ∃ members, message.members group = .ok members)
    : field ∈ shownFields message ↔ message.Shows field := by
  constructor
  · intro shown
    obtain ⟨slot, member, inside⟩ := List.mem_flatMap.mp shown
    cases slot with
    | single other =>
        rw [List.mem_singleton.mp inside]
        obtain ⟨present, alone⟩ := Message.single_mem_slots.mp member
        exact .single present alone
    | group group =>
        have present := Message.group_mem_slots.mp member
        obtain ⟨members, found⟩ := groups group present
        simp only [slotFields, groupFields, found] at inside
        obtain ⟨name, named, known⟩ := (own.mem_members_iff found).mp inside
        exact .grouped present named known
  · intro shows
    cases shows with
    | single member alone =>
        refine List.mem_flatMap.mpr ⟨.single field, ?_, List.mem_singleton_self field⟩
        exact Message.single_mem_slots.mpr ⟨member, alone⟩
    | @grouped group name present named known =>
        obtain ⟨members, found⟩ := groups group present
        refine List.mem_flatMap.mpr ⟨.group group, Message.group_mem_slots.mpr present, ?_⟩
        simp only [slotFields, groupFields, found]
        exact (own.mem_members_iff found).mpr ⟨name, named, known⟩

/-- The declaration of the type and of the entries of its maps can be written: the members of its
groups are fields, and what its fields refer to is found, the values of its maps included.
-/
inductive Writable (scope : Scope) : Node → Prop
  | enumeration (content : Enumeration) : Writable scope (.enumeration content)
  | message {content : Message}
    (groups
      : ∀ group, content.HasGroup group → ∃ members, content.members group = .ok members)
    (finds : ∀ field ∈ shownFields content, Finds scope field.type)
    : Writable scope (.message content)

/-- Such a type can be declared at any time, since no entry of its maps has its name. -/
theorem Writable.accepted {node : Node} (writable : Writable scope node)
    (member : node ∈ scope.listed) (apart : EntriesApart scope) (progress : Progress)
    : progress.AcceptsNode style int64 scope node := by
  by_cases known : progress.registry.contains node.name = true
  · exact .inl known
  · refine .inr ⟨?content, ?fresh⟩
    case content =>
      cases writable with
      | enumeration content => trivial
      | @message content groups finds =>
          refine acceptsContent_message.mpr ⟨groups, along_of_forall fun progress field shown => ?_⟩
          unfold Progress.AcceptsField
          split
          · exact .inr (finds field shown)
          · exact finds field shown
    case fresh =>
      rw [← Bool.not_eq_true, Progress.contains_iff, Progress.keys_addContent, mem_foldl_addName]
      rintro (declared | entry)
      · exact known (Progress.contains_iff.mpr declared)
      · cases node with
        | enumeration content => exact absurd entry List.not_mem_nil
        | message content =>
            obtain ⟨field, shown, named⟩ := mem_entryNames.mp entry
            obtain ⟨key, keyed, same⟩ := Option.map_eq_some_iff.mp named
            exact apart.unlisted member (mem_of_mem_shownFields shown) keyed _ member same.symm

/-- What a run has declared could be written; the entry of a map was declared with its value. -/
theorem Progress.Finished.writable (finished : progress.Finished style int64 scope)
    (apart : EntriesApart scope) (once : ListedOnce scope) {node : Node}
    (member : node ∈ scope.listed)
    : Writable scope node := by
  have ready := (finished.declares apart once (.listed member)).2.1
  cases ready with
  | enumeration content => exact .enumeration content
  | @message content groups finds =>
      refine .message groups fun field shown => ?_
      cases keyed : field.mapKey with
      | none => exact finds field shown keyed
      | some key =>
          have entry := (finished.declares apart once (.entry member shown keyed)).2.1
          cases entry with
          | message _ finds =>
              rw [shownFields_entry] at finds
              exact finds { name := "value", type := field.type }
                (MapEntry.mem_fields.mpr (.inr rfl)) rfl

/-- A run succeeds if all listed types can be declared. -/
theorem build_succeeds (apart : EntriesApart scope)
    (writable : ∀ node ∈ scope.listed, Writable scope node)
    : ∃ last, exec (build style int64 scope) {} = (.ok ⟨⟩, last) := by
  have along : Along (Progress.AcceptsNode style int64 scope)
      (Progress.addNode style int64 scope) {} scope.listed :=
    along_of_forall fun progress node member =>
      (writable node member).accepted member apart progress
  exact ⟨_, exec_build_ok.mpr ⟨along, rfl⟩⟩

/-- Where sources are known by their names, a conversion succeeds exactly if all listed types can be
declared.
-/
theorem convert_succeeds_iff (apart : EntriesApart scope) (once : ListedOnce scope)
    : (∃ output, convert style int64 scope = .ok output)
      ↔ ∀ node ∈ scope.listed, Writable scope node := by
  constructor
  · rintro ⟨_, success⟩ node member
    have built := exec_build_ok.mpr ⟨(convert_eq_ok.mp success).1, rfl⟩
    exact (build_finished built).writable apart once member
  · intro writable
    obtain ⟨_, built⟩ := build_succeeds apart writable
    exact ⟨_, convert_eq_ok.mpr ⟨(exec_build_ok.mp built).1, rfl⟩⟩

end ProtoSchema.TypeScript
