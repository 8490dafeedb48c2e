import ProtoSchema.Proofs.GraphQL.Consistency

/-! The work of converting all deferred fields is bounded: each conversion takes one message off
the queue, and only messages of the schema and entries of maps are ever added to it, each once
since it is registered under a new name.
-/

namespace ProtoSchema.GraphQL

open Schema
open Execution

variable {int64 : Integer64} {scope : Scope} {request : Request} {before middle after : Progress}

/-- The messages of the schema. -/
def declaredMessages (scope : Scope) : List Message :=
  messagesOf scope.listed ++ messagesOf scope.catalog.nodes

/-- The entries of the map fields of some messages. -/
def entriesOf (messages : List Message) : List Message :=
  messages.flatMap fun message => message.fields.filterMap (MapEntry.message? message)

/-- The messages that may still be deferred after a start: those of the schema, and the entries
of their maps and of the maps of what is deferred already.
-/
def pool (scope : Scope) (start : Progress) : List Message :=
  declaredMessages scope ++ entriesOf (start.deferred.values ++ declaredMessages scope)

theorem mem_messagesOf {message : Message} {nodes : List Node}
    : message ∈ messagesOf nodes ↔ .message message ∈ nodes := by
  rw [messagesOf, List.mem_filterMap]
  constructor
  · rintro ⟨node, member, same⟩
    cases node with
    | message content =>
        cases same
        exact member
    | enumeration content => cases same
  · exact fun member => ⟨_, member, rfl⟩

theorem mem_declaredMessages {scope : Scope} {message : Message}
    : message ∈ declaredMessages scope
      ↔ .message message ∈ scope.listed ∨ .message message ∈ scope.catalog.nodes := by
  rw [declaredMessages, List.mem_append, mem_messagesOf, mem_messagesOf]

theorem mem_entriesOf {entry : Message} {messages : List Message}
    : entry ∈ entriesOf messages
      ↔ ∃ message ∈ messages,
          ∃ field ∈ message.fields,
          ∃ key, field.mapKey = some key ∧ MapEntry.message message field key = entry := by
  simp only [entriesOf, List.mem_flatMap, List.mem_filterMap, MapEntry.message?,
    Option.map_eq_some_iff]

/-- The bound on the work counts what is deferred and what may still be deferred. -/
theorem workBound_eq (scope : Scope) (start : Progress)
    : workBound scope start = start.deferred.size + (pool scope start).length := by
  have maps (messages : List Message)
      : (messages.flatMap Message.fields).countP Field.isMap = (entriesOf messages).length := by
    rw [entriesOf, List.countP_flatMap, List.length_flatMap]
    congr 1
    apply List.map_congr_left
    intro message _
    simp only [Function.comp_apply, List.length_filterMap_eq_countP, MapEntry.message?,
      Option.isSome_map]
    rfl
  have sizes : start.deferred.values.length = start.deferred.size := List.length_map ..
  simp only [workBound, pool, declaredMessages, maps, List.length_append, sizes, List.append_assoc]
  omega

/-- Everything that is deferred was deferred at the start or comes from the pool. -/
def Progress.Draws (progress : Progress) (scope : Scope) (start : Progress) : Prop :=
  ∀ name message,
    progress.deferred.get? name = some message
    → message ∈ start.deferred.values ∨ message ∈ pool scope start

theorem Progress.Draws.refl (scope : Scope) (start : Progress) : start.Draws scope start :=
  fun name _ found => .inl (OrderedMap.mem_values_iff.mpr ⟨name, found⟩)

/-- A node that the values of a message lead to belongs to the schema or is an entry. -/
theorem Request.Allows.node_cases {message : Message} {node : Node}
    (allowed : (Request.fields message).Allows scope (.node node))
    : (node ∈ scope.listed ∨ node ∈ scope.catalog.nodes)
      ∨ ∃ field ∈ message.fields,
        ∃ key, field.mapKey = some key
          ∧ node = .message (MapEntry.message message field key) := by
  cases allowed with
  | found _ found => exact .inl (Scope.mem_of_find?_eq_some found)
  | value allowed =>
      cases allowed with
      | found _ found => exact .inl (Scope.mem_of_find?_eq_some found)
      | entry shown keyed => exact .inr ⟨_, shown.mem, _, keyed, rfl⟩

/-- The fields of what may be deferred lead to messages of the pool only: an entry among them
has no entries of its own.
-/
theorem mem_pool_of_allowed {start : Progress} {message content : Message}
    (drawn : message ∈ start.deferred.values ∨ message ∈ pool scope start)
    (allowed : (Request.fields message).Allows scope (.node (.message content)))
    : content ∈ pool scope start := by
  rcases allowed.node_cases with declared | ⟨field, member, key, keyed, same⟩
  · exact List.mem_append_left _ (mem_declaredMessages.mpr declared)
  · cases same
    have entry (source : message ∈ start.deferred.values ++ declaredMessages scope)
        : MapEntry.message message field key ∈ pool scope start :=
      List.mem_append_right _ (mem_entriesOf.mpr ⟨message, source, field, member, key, keyed, rfl⟩)
    rcases drawn with deferred | pooled
    · exact entry (List.mem_append_left _ deferred)
    · -- An entry in the pool has no map fields, so it leads to no entry outside of it.
      rcases List.mem_append.mp pooled with declared | inner
      · exact entry (List.mem_append_right _ declared)
      · obtain ⟨_, _, _, _, _, _, rfl⟩ := mem_entriesOf.mp inner
        cases (MapEntry.plain_of_mem member).1.symm.trans keyed

-----------------------------------------------------------------------------------------
-- The work that is left
-----------------------------------------------------------------------------------------

/-- The messages of the pool that are not registered yet. -/
def Progress.unseen (progress : Progress) (messages : List Message) : List Message :=
  messages.filter fun message => (progress.registry.get? message.name).isNone

/-- What is deferred together with what may still be deferred. -/
def Progress.work (progress : Progress) (messages : List Message) : Nat :=
  progress.deferred.size + (progress.unseen messages).length

theorem Progress.unseen_enter (progress : Progress) (origin : Origin) (type : NamedType)
    (messages : List Message)
    : (progress.enter origin type).unseen messages
      = (progress.unseen messages).filter fun message => message.name ≠ origin.name := by
  rw [Progress.unseen, Progress.unseen, List.filter_filter]
  apply List.filter_congr
  intro message _
  rw [Progress.registry_enter]
  by_cases same : message.name = origin.name <;> simp [same]

/-- A registration for a message adds no work, since the message leaves the pool when it is
deferred; the cases are those of the origin.
-/
theorem Registration.work_le {start : Progress} {message : Message}
    (step : Registration int64 scope (.fields message) before after)
    (drawn : message ∈ start.deferred.values ∨ message ∈ pool scope start)
    : after.work (pool scope start) ≤ before.work (pool scope start) := by
  cases step with
  | @enter origin type allowed made fresh free =>
      have fewer := List.length_filter_le
        (fun message => decide (message.name ≠ origin.name)) (before.unseen (pool scope start))
      simp only [Progress.work, Progress.unseen_enter]
      rcases origin with (content | content) | group
      -- The queue grows by the message, but the message is no longer unseen.
      · have grown := OrderedMap.size_insert_le before.deferred content.name content
        have member : content ∈ before.unseen (pool scope start) := by
          refine List.mem_filter.mpr ⟨mem_pool_of_allowed drawn allowed, ?_⟩
          exact Option.isNone_iff_eq_none.mpr fresh
        have less : ((before.unseen (pool scope start)).filter fun message =>
            decide (message.name ≠ (Origin.node (.message content)).name)).length
            < (before.unseen (pool scope start)).length :=
          List.length_filter_lt_length_iff_exists.mpr
            ⟨content, member, by simp [Origin.name, Node.name]⟩
        simp only [Progress.enter]
        omega
      · simp only [Progress.enter]
        omega
      · simp only [Progress.enter]
        omega

/-- A registration for a message defers messages of the pool only. -/
theorem Registration.draws {start : Progress} {message : Message}
    (step : Registration int64 scope (.fields message) before after)
    (drawn : message ∈ start.deferred.values ∨ message ∈ pool scope start)
    (draws : before.Draws scope start)
    : after.Draws scope start := by
  cases step with
  | @enter origin type allowed made fresh free =>
      intro name other found
      rw [Progress.deferred_enter] at found
      split at found
      · cases Origin.message?_eq_some.mp found
        exact .inr (mem_pool_of_allowed drawn allowed)
      · exact draws name other found

/-- Registrations for a message add no work, by induction on their number. -/
theorem Registers.work_le {start : Progress} {message : Message}
    (steps : Registers int64 scope (.fields message) before after)
    (drawn : message ∈ start.deferred.values ∨ message ∈ pool scope start)
    (draws : before.Draws scope start)
    : after.Draws scope start
      ∧ after.work (pool scope start) ≤ before.work (pool scope start) := by
  induction steps with
  | refl => exact ⟨draws, Nat.le_refl _⟩
  | tail _ step ih => exact ⟨step.draws drawn ih.1, Nat.le_trans (step.work_le drawn) ih.2⟩

/-- Converting the fields under a deferred name leaves less work. -/
theorem Forced.work_lt {start : Progress} {name : String}
    (forced : Forced int64 scope before name (.ok ⟨⟩, after))
    (queued : name ∈ before.deferred.keys) (draws : before.Draws scope start)
    : after.Draws scope start
      ∧ after.work (pool scope start) < before.work (pool scope start) := by
  cases forced with
  | idle absent =>
      obtain ⟨message, found⟩ := OrderedMap.mem_keys_iff.mp queued
      cases absent.symm.trans found
  | @converted message fields middle found steps typed explains =>
      have shrunk := OrderedMap.size_erase_lt queued
      have drawsLess : (before.unqueue name).Draws scope start := by
        intro other content kept
        rw [Progress.deferred_unqueue] at kept
        split at kept
        · cases kept
        · exact draws other content kept
      obtain ⟨drawsAfter, less⟩ := Registers.work_le steps (draws name message found) drawsLess
      refine ⟨drawsAfter, ?_⟩
      have unseen : (middle.fill name fields).unseen (pool scope start)
          = middle.unseen (pool scope start) := by
        apply List.filter_congr
        intro message _
        rw [Progress.registry_fill]
        split
        · rw [Option.isNone_map]
        · rfl
      have taken : (before.unqueue name).work (pool scope start) < before.work (pool scope start) :=
        Nat.add_lt_add_right shrunk _
      rw [Progress.work, unseen]
      exact Nat.lt_of_le_of_lt less taken

/-- Forcing the first names as often as there is work leaves nothing deferred, unless it fails;
by induction on the outcome.
-/
theorem ForcedFirst.empties {start : Progress} {count : Nat}
    {outcome : Except ConversionError Unit × Progress}
    (forced : ForcedFirst int64 scope count before outcome) (success : outcome.1 = .ok ⟨⟩)
    (draws : before.Draws scope start) (enough : before.work (pool scope start) ≤ count)
    : outcome.2.deferred.keys = [] := by
  induction forced with
  | spent before =>
      have size : before.deferred.size = 0 := by
        rw [Progress.work] at enough
        omega
      rw [OrderedMap.keys, Entries.keys, List.length_eq_zero_iff.mp size, List.map_nil]
  | done none_ => exact List.head?_eq_none_iff.mp none_
  | next first run rest ih =>
      obtain ⟨drawsMiddle, less⟩ :=
        (forced_of_run run).work_lt (List.mem_of_head? first) draws
      exact ih success drawsMiddle (by omega)
  | failed first run => cases success

/-- When all deferred fields were converted, none are deferred any more. -/
theorem materialize_ok (success : exec (materialize int64 scope) before = (.ok ⟨⟩, after))
    : after.deferred.keys = [] := by
  have forced := materialized_of_run success
  rw [workBound_eq] at forced
  apply forced.empties rfl (.refl scope before)
  exact Nat.add_le_add_left (List.length_filter_le _ _) _

end ProtoSchema.GraphQL
