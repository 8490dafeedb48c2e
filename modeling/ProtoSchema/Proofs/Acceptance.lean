import ProtoSchema.Proofs.GraphQL.Success
import ProtoSchema.Proofs.Repetition
import ProtoSchema.Proofs.TypeScript.Success

/-! Both conversions accept the same schemas. One of them follows references from the listed types
and the other goes through the list, but they look up the same references and the same members of
groups: the values of maps and the members are what the listed types lead to. Only GraphQL needs
distinct names of types besides.
-/

namespace ProtoSchema

open Schema
open GraphQL (Needed Clash NamesApart Resolvable)
open TypeScript (Finds Writable mem_shownFields_iff)

variable {scope : Scope}

/-- Each listed message finds the members of its groups by their names. -/
def OwnMembers (scope : Scope) : Prop :=
  ∀ message, .message message ∈ scope.listed → message.OwnMembers

-----------------------------------------------------------------------------------------
-- What both conversions look up
-----------------------------------------------------------------------------------------

/-- What the listed types lead to is looked up, so they can be declared; the value of a map is
looked up as the value of its entries.
-/
theorem writable_of_resolvable (own : OwnMembers scope) (resolvable : Resolvable scope)
    {node : Node} (member : node ∈ scope.listed)
    : Writable scope node := by
  cases node with
  | enumeration content => exact .enumeration content
  | message content =>
      have needed : Needed scope (.node (.message content)) := .asked rfl (.listed member)
      have groups (group : String) (present : content.HasGroup group)
          : ∃ members, content.members group = .ok members :=
        Message.members_eq_ok_iff.mpr fun _ named => resolvable.members needed present named
      refine .message groups fun field shown => ?_
      have shows := (mem_shownFields_iff (own content member) groups).mp shown
      cases type : field.type with
      | scalar kind => trivial
      | named reference =>
          cases keyed : field.mapKey with
          | none => exact resolvable.finds needed (.value shows keyed type)
          | some key =>
              have entry : Needed scope (.node (.message (MapEntry.message content field key))) :=
                .shown needed (.value (.entry shows keyed))
              have value : (MapEntry.message content field key).Shows
                  { name := "value", type := field.type } :=
                .single (MapEntry.mem_fields.mpr (.inr rfl)) rfl
              exact resolvable.finds entry (.value value rfl type)

/-- Every reference denotes a listed type, if it denotes any. -/
def ListedReferences (scope : Scope) : Prop :=
  ∀ reference node, scope.find? reference = some node → node ∈ scope.listed

/-- Where references denote listed types, what the listed types lead to is listed or the entry of a
map that a listed message shows; by induction on how they lead to it.
-/
theorem listed_or_entry (lists : ListedReferences scope) {node : Node}
    (needed : Needed scope (.node node))
    : node ∈ scope.listed
      ∨ ∃ message field key,
          .message message ∈ scope.listed
          ∧ message.Shows field
          ∧ node = .message (MapEntry.message message field key) := by
  generalize same : GraphQL.Origin.node node = origin at needed
  induction needed generalizing node with
  | asked ask allowed =>
      cases ask
      cases allowed with
      | listed member =>
          cases same
          exact .inl member
      | found refers _ => cases refers
  | @shown message origin known allowed ih =>
      cases allowed with
      | group present => cases same
      | found _ denotes =>
          cases same
          exact .inl (lists _ node denotes)
      | value allowed =>
          cases allowed with
          | found _ denotes =>
              cases same
              exact .inl (lists _ node denotes)
          | @entry _ field key shown keyed =>
              cases same
              rcases ih rfl with listed | ⟨_, _, _, _, _, entry⟩
              · exact .inr ⟨message, field, key, listed, shown, rfl⟩
              · -- An entry has no maps.
                cases entry
                cases (MapEntry.plain_of_mem shown.mem).1.symm.trans keyed

/-- Where references denote listed types, what these lead to is looked up when they are declared. -/
theorem resolvable_of_writable (own : OwnMembers scope) (lists : ListedReferences scope)
    (writable : ∀ node ∈ scope.listed, Writable scope node)
    : Resolvable scope where
  finds := by
    intro message reference needed refers
    cases refers with
    | @value _ field _ shows keyless named =>
        have value (owner : Message) (inner : Field) (listed : .message owner ∈ scope.listed)
            (shows : owner.Shows inner)
            : Finds scope inner.type := by
          cases writable _ listed with
          | message groups finds =>
              exact finds inner ((mem_shownFields_iff (own owner listed) groups).mpr shows)
        have finds : Finds scope field.type := by
          rcases listed_or_entry lists needed with
            listed | ⟨outer, inner, key, listed, shown, entry⟩
          · exact value message field listed shows
          · cases entry
            rcases MapEntry.mem_fields.mp shows.mem with rfl | rfl
            · trivial
            · exact value outer inner listed shown
        rw [named] at finds
        exact finds
  members := by
    intro message group member needed present named
    rcases listed_or_entry lists needed with listed | ⟨_, _, _, _, _, entry⟩
    · cases writable _ listed with
      | message groups _ => exact Message.members_eq_ok_iff.mp (groups group present) member named
    · cases entry
      obtain ⟨field, inside, grouped⟩ := present
      cases (MapEntry.plain_of_mem inside).2.symm.trans grouped

-----------------------------------------------------------------------------------------
-- The first listed types of their names
-----------------------------------------------------------------------------------------

theorem declares_of_firsts (node : Node) (declared : GraphQL.Declares scope.firsts node)
    : GraphQL.Declares scope node :=
  declared.imp_left Scope.mem_of_mem_firsts

/-- Names that are apart do not collide among the first listed types of their names. -/
theorem collisionFree_firsts (apart : NamesApart scope) : GraphQL.CollisionFree scope.firsts :=
  ⟨apart.mono declares_of_firsts rfl, Scope.firsts_unique⟩

theorem OwnMembers.firsts (own : OwnMembers scope) : OwnMembers scope.firsts :=
  fun message member => own message (Scope.mem_of_mem_firsts member)

/-- Where the types of the catalog are listed, references denote first listed types of their names:
a type is found in the catalog only if no listed one has its name.
-/
theorem listedReferences_firsts (apart : NamesApart scope)
    (stored : ∀ node ∈ scope.catalog.nodes, node ∈ scope.listed)
    : ListedReferences scope.firsts := by
  intro reference node found
  rcases Scope.listed_or_stored found with listed | ⟨known, unlisted⟩
  · exact listed
  · have member := stored node (OrderedMap.mem_values_iff.mpr ⟨_, known⟩)
    have first : scope.firstOf node ∈ scope.firsts.listed := List.mem_map_of_mem member
    exact absurd ((scope.name_firstOf node).trans (apart.keys known)) (unlisted _ first)

/-- Where names do not collide, the sources of declarations are known by their names. -/
theorem entriesApart_of_collisionFree (free : GraphQL.CollisionFree scope)
    : TypeScript.EntriesApart scope where
  entries := fun first second => free.entries (.inl first) (.inl second)
  unlisted := by
    intro message field key owner member keyed node listed named
    have entry : GraphQL.EntryName scope (MapEntry.name message field key) :=
      .entry (.inl owner) member keyed
    rw [← named] at entry
    exact free.entryApart entry (.declared (.inl listed))

/-- The conversions accept the same schemas. Let names be apart, and let each field that names an
undeclared group be the first field of its name. What GraphQL accepts, TypeScript accepts. Where all
types of the catalog are listed, GraphQL accepts what TypeScript accepts, unless the first listed
types of their names lead to two names that share the name of their type: then it fails with the
error that names two such.
-/
theorem conversions_accept_alike {style : TypeScript.CommentStyle} {int64 other : Integer64}
    {scope : Scope} (apart : NamesApart scope) (own : OwnMembers scope)
    : ((∃ definitions, GraphQL.convert int64 scope = .ok definitions)
        → ∃ output, TypeScript.convert style other scope = .ok output)
      ∧ ((∀ node ∈ scope.catalog.nodes, node ∈ scope.listed)
        → (∃ output, TypeScript.convert style other scope = .ok output)
        → ((∀ owner rival, ¬ Clash scope.firsts owner rival)
            → ∃ definitions, GraphQL.convert int64 scope = .ok definitions)
          ∧ ((∃ owner rival, Clash scope.firsts owner rival)
            → ∃ owner rival,
                Clash scope.firsts owner rival
                ∧ GraphQL.convert int64 scope
                  = .error
                      (.malformed
                        (.sharedTypeName owner.name rival.name
                          (GraphQL.typeName rival.name))))) := by
  have free := collisionFree_firsts apart
  have once : TypeScript.ListedOnce scope.firsts :=
    fun first left second right => free.listed left right
  rw [← GraphQL.convert_firsts int64 scope, ← TypeScript.convert_firsts style other scope,
    TypeScript.convert_succeeds_iff (entriesApart_of_collisionFree free) once]
  refine ⟨?declared, ?converted⟩
  case declared =>
    intro success node member
    obtain ⟨definitions, success⟩ := success
    have resolvable := (GraphQL.convert_complete success).resolvable free
    exact writable_of_resolvable own.firsts resolvable member
  case converted =>
    intro stored writable
    have lists := listedReferences_firsts apart stored
    have resolvable := resolvable_of_writable own.firsts lists writable
    refine ⟨GraphQL.convert_succeeds free resolvable, fun clashes => ?_⟩
    obtain ⟨owner, rival, clash⟩ := clashes
    exact GraphQL.convert_fails_of_clash free resolvable clash

/-- The message that refers to itself is accepted by both conversions, so none of its names share
the name of their type.
-/
theorem selfReference_accepted
    : (∃ output,
        TypeScript.convert TypeScript.jsDoc .text GraphQL.selfReference = .ok output)
      ∧ ∀ owner rival, ¬ Clash GraphQL.selfReference.firsts owner rival := by
  have own : OwnMembers GraphQL.selfReference := by
    intro message member
    cases List.mem_singleton.mp member
    unfold Message.OwnMembers
    decide +kernel
  have alike := @conversions_accept_alike TypeScript.jsDoc .text .text _
    GraphQL.selfReference_collisionFree.toNamesApart own
  obtain ⟨definitions, success⟩ := GraphQL.selfReference_converts
  have accepted := alike.1 ⟨definitions, success⟩
  refine ⟨accepted, fun owner rival clash => ?_⟩
  have stored : ∀ node ∈ GraphQL.selfReference.catalog.nodes, node ∈ GraphQL.selfReference.listed :=
    fun node member => absurd member List.not_mem_nil
  obtain ⟨_, _, _, failure⟩ := (alike.2 stored accepted).2 ⟨owner, rival, clash⟩
  cases success.symm.trans failure

-----------------------------------------------------------------------------------------
-- A member that another field hides
-----------------------------------------------------------------------------------------

/-- A message with two fields of one name, the second of them in a group that is not declared. -/
def doubled : Message where
  name := "M"
  fields := [
    { name := "x", type := .scalar .string },
    { name := "x", type := .named "Missing", oneof := some "g" }]

/-- The message as the only type of the catalog and of the list. -/
def hiddenMember : Scope where
  catalog := { types := .ofEntries [("M", .message doubled)] }
  listed := [.message doubled]

theorem declares_hiddenMember {node : Node} (declared : GraphQL.Declares hiddenMember node)
    : node = .message doubled :=
  declared.elim List.mem_singleton.mp List.mem_singleton.mp

theorem doubled_group {group : String} (present : doubled.HasGroup group) : group = "g" := by
  obtain ⟨field, member, grouped⟩ := present
  have all : ∀ field ∈ doubled.fields, field.oneof = none ∨ field.oneof = some "g" := by decide
  rcases all field member with same | same
  · cases same.symm.trans grouped
  · exact Option.some.inj (grouped.symm.trans same)

theorem mentioned_hiddenMember {name : String} (mentioned : GraphQL.Mentioned hiddenMember name)
    : name = "M" ∨ name = "Missing" := by
  cases mentioned with
  | declared declared =>
      rw [declares_hiddenMember declared]
      exact .inl rfl
  | referenced referenced =>
      cases referenced with
      | field declared member named =>
          cases declares_hiddenMember declared
          have all : ∀ field ∈ doubled.fields,
              field.type = .scalar .string ∨ field.type = .named "Missing" := by decide
          rcases all _ member with type | type
          · cases type.symm.trans named
          · cases type.symm.trans named
            exact .inr (by decide)

theorem no_entry_hiddenMember {name : String} : ¬ GraphQL.EntryName hiddenMember name := by
  intro entry
  cases entry with
  | entry declared member keyed =>
      cases declares_hiddenMember declared
      have all : ∀ field ∈ doubled.fields, field.mapKey = none := by decide
      cases (all _ member).symm.trans keyed

theorem hiddenMember_namesApart : NamesApart hiddenMember where
  keys := by
    intro name node found
    cases List.mem_singleton.mp (OrderedMap.mem_entries_iff.mpr found)
    rfl
  entries := fun first _ left _ leftKeyed _ _ =>
    absurd (.entry first left leftKeyed) no_entry_hiddenMember
  groups := by
    intro first second left right firstDeclared secondDeclared leftPresent rightPresent _
    cases declares_hiddenMember firstDeclared
    cases declares_hiddenMember secondDeclared
    exact ⟨rfl, (doubled_group leftPresent).trans (doubled_group rightPresent).symm⟩
  entryApart := fun entry => absurd entry no_entry_hiddenMember
  groupApart := by
    intro name group mentioned
    cases group with
    | group declared present =>
        cases declares_hiddenMember declared
        cases doubled_group present
        rcases mentioned_hiddenMember mentioned with same | same
        · exact absurd same (by decide)
        · exact absurd same (by decide)
  entryGroup := fun entry => absurd entry no_entry_hiddenMember

/-- GraphQL looks the members of an undeclared group up by their names. It takes the first field of
the name for the second one, whose type is nowhere declared, and accepts what TypeScript rejects.
-/
theorem hidden_member_converts
    : NamesApart hiddenMember
      ∧ (∀ node ∈ hiddenMember.catalog.nodes, node ∈ hiddenMember.listed)
      ∧ (GraphQL.convert .text hiddenMember).isOk
      ∧ (GraphQL.finalProgress .text hiddenMember).registry.get? "M.g"
        = some (.union { name := "M_g", members := [.nonNull (.named "String")] })
      ∧ TypeScript.convert TypeScript.jsDoc .text hiddenMember
        = .error (.typeNotFound "Missing" none) := by
  refine ⟨hiddenMember_namesApart, fun node member => member, ?_, ?_, ?_⟩
  all_goals decide +kernel

end ProtoSchema
