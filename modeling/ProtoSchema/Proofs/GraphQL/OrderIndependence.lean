import ProtoSchema.Proofs.GraphQL.Definitions
import ProtoSchema.Proofs.GraphQL.Success

/-! The order in which types are listed and in which fields are asked for does not matter. Where
names do not collide and references are direct, a reference denotes the same for every list of the
same types, so that these lists lead to the same origins and have the same translations.
-/

namespace ProtoSchema.GraphQL

open Schema
open Execution

variable {int64 : Integer64} {scope : Scope} {other : List Node} {progress before after : Progress}

/-- The scope with another list. -/
def relist (scope : Scope) (listed : List Node) : Scope :=
  { scope with listed }

/-- Both lists have the same types, in any order and any number. -/
def SameTypes (scope : Scope) (other : List Node) : Prop :=
  ∀ node, node ∈ other ↔ node ∈ scope.listed

theorem SameTypes.declares (same : SameTypes scope other) (node : Node)
    (declared : Declares (relist scope other) node)
    : Declares scope node :=
  declared.imp_left (same node).mp

/-- Whether names collide depends on the declared types only. -/
theorem CollisionFree.relist (free : CollisionFree scope) (same : SameTypes scope other)
    : CollisionFree (relist scope other) := by
  refine ⟨free.toNamesApart.mono same.declares rfl, ?_⟩
  exact fun first second => free.listed ((same _).mp first) ((same _).mp second)

theorem DirectReferences.relist (direct : DirectReferences scope) (same : SameTypes scope other)
    : DirectReferences (relist scope other) := by
  intro name referenced
  apply (direct name (referenced.mono same.declares)).imp_left
  intro listed
  rcases listed with ⟨node, member, named⟩
  exact ⟨node, (same node).mpr member, named⟩

theorem SameTypes.symm (same : SameTypes scope other)
    : SameTypes (relist scope other) scope.listed :=
  fun node => (same node).symm

theorem SameTypes.source (same : SameTypes scope other) {origin : Origin}
    (source : Source (relist scope other) origin)
    : Source scope origin := by
  induction source with
  | listed member => exact .listed ((same _).mp member)
  | catalog member unlisted =>
      exact .catalog member fun node listed => unlisted node ((same node).mpr listed)
  | entry _ member keyed ih => exact .entry ih member keyed
  | group _ present ih => exact .group ih present

/-- A direct reference denotes the same whatever the order of the list. -/
theorem find?_relist {reference : String} (free : CollisionFree scope)
    (direct : DirectReferences scope) (same : SameTypes scope other)
    (referenced : Referenced scope (Name.dropLeadingDots reference))
    : (relist scope other).find? reference = scope.find? reference := by
  have back : Referenced (relist scope other) (Name.dropLeadingDots reference) :=
    Referenced.mono same.symm.declares referenced
  obtain ⟨node, denotes, named⟩ := find?_of_direct free direct referenced
  obtain ⟨rival, otherDenotes, otherNamed⟩ :=
    find?_of_direct (free.relist same) (direct.relist same) back
  have source := source_of_find? free denotes
  have otherSource := same.source (source_of_find? (free.relist same) otherDenotes)
  cases otherSource.unique free source (otherNamed.trans named.symm)
  rw [denotes, otherDenotes]

/-- Computations that agree on the elements of a list agree on the list, by induction. -/
theorem mapM_congr {α β : Type} {left right : α → Option β} {items : List α}
    (agree : ∀ item ∈ items, left item = right item)
    : items.mapM left = items.mapM right := by
  induction items with
  | nil => rfl
  | cons item rest ih =>
      rw [List.mapM_cons, List.mapM_cons, agree item List.mem_cons_self,
        ih fun item member => agree item (List.mem_cons_of_mem _ member)]

section

variable (free : CollisionFree scope) (direct : DirectReferences scope)
  (same : SameTypes scope other)

include free direct same

-----------------------------------------------------------------------------------------
-- Lists of the same types lead to the same origins
-----------------------------------------------------------------------------------------

theorem allows_values_relist {message : Message} {origin : Origin}
    (source : Source scope (.node (.message message)))
    (allowed : (Request.values message).Allows scope origin)
    : (Request.values message).Allows (relist scope other) origin := by
  cases allowed with
  | entry shown keyed => exact .entry shown keyed
  | found refers denotes =>
      cases refers with
      | value shown keyless named =>
          refine .found (.value shown keyless named) ?_
          rw [find?_relist free direct same (source.referenced shown.mem named)]
          exact denotes

theorem allows_fields_relist {message : Message} {origin : Origin}
    (source : Source scope (.node (.message message)))
    (allowed : (Request.fields message).Allows scope origin)
    : (Request.fields message).Allows (relist scope other) origin := by
  cases allowed with
  | value allowed => exact .value (allows_values_relist free direct same source allowed)
  | group present => exact .group present
  | found refers denotes =>
      cases refers with
      | shown refers =>
          exact .value (allows_values_relist free direct same source (.found refers denotes))

/-- Lists of the same types lead to the same origins, by induction on how these are led to. -/
theorem needed_relist {origin : Origin} (needed : Needed scope origin)
    : Needed (relist scope other) origin := by
  induction needed with
  | asked ask allowed =>
      cases ask
      cases allowed with
      | listed member => exact .asked rfl (.listed ((same _).mpr member))
      | found refers _ => cases refers
  | shown known allowed ih =>
      have source := Needed.source known free
      exact .shown ih (allows_fields_relist free direct same source allowed)

theorem Convertible.relist (convertible : Convertible scope)
    : Convertible (relist scope other) := by
  have back {origin : Origin} (needed : Needed (GraphQL.relist scope other) origin)
      : Needed scope origin :=
    needed_relist (free.relist same) (direct.relist same) same.symm needed
  constructor
  · exact fun first second => convertible.distinct (back first) (back second)
  · exact fun needed => convertible.members (back needed)

theorem typeOf?_relist {message : Message} {field : Field}
    (source : Source scope (.node (.message message))) (member : field ∈ message.fields)
    : typeOf? int64 (relist scope other) message field = typeOf? int64 scope message field := by
  have base : baseNameOf? int64 (relist scope other) message field
      = baseNameOf? int64 scope message field := by
    cases keyed : field.mapKey with
    | some key => simp only [baseNameOf?, keyed]
    | none =>
        cases named : field.type with
        | scalar kind => simp only [baseNameOf?, keyed, named]
        | named reference =>
            have denotes := find?_relist free direct same (source.referenced member named)
            simp only [baseNameOf?, keyed, named, denotes]
  rw [typeOf?, typeOf?, base]

theorem definitionsOf?_relist {message : Message} (source : Source scope (.node (.message message)))
    : definitionsOf? int64 (relist scope other) message = definitionsOf? int64 scope message := by
  apply mapM_congr
  intro field member
  have type := @typeOf?_relist int64 _ _ free direct same message field source
    (Message.mem_of_mem_placed member)
  simp only [definitionOf?, type]

theorem membersOf?_relist {message : Message} {group : String}
    (source : Source scope (.node (.message message)))
    : membersOf? int64 (relist scope other) message group
      = membersOf? int64 scope message group := by
  apply mapM_congr
  intro name _
  cases found : message.field? name with
  | none => rfl
  | some field =>
      exact typeOf?_relist free direct same source (List.mem_of_find?_eq_some found)

/-- A source has the same translation for lists of the same types, by cases on the source. -/
theorem translates_relist {origin : Origin} {type : NamedType} (source : Source scope origin)
    (translates : Translates int64 (relist scope other) origin type)
    : Translates int64 scope origin type := by
  cases translates with
  | enumeration content => exact .enumeration content
  | output kind resolved =>
      rw [definitionsOf?_relist free direct same source] at resolved
      exact .output kind resolved
  | input kind resolved =>
      rw [definitionsOf?_relist free direct same source] at resolved
      exact .input kind resolved
  | group typed =>
      cases source with
      | group owner present =>
          rw [membersOf?_relist free direct same owner] at typed
          exact .group typed

end

/-- Fields that are not deferred are determined by their message. -/
theorem resolved_unique {message : Message} {left right : Fields}
    (leftResolved
      : ∀ known, left = .resolved known → definitionsOf? int64 scope message = some known)
    (rightResolved
      : ∀ known, right = .resolved known → definitionsOf? int64 scope message = some known)
    (leftSettled : left ≠ .deferred) (rightSettled : right ≠ .deferred)
    : left = right := by
  cases left with
  | deferred => exact absurd rfl leftSettled
  | resolved known =>
      cases right with
      | deferred => exact absurd rfl rightSettled
      | resolved others =>
          have equal := (leftResolved known rfl).symm.trans (rightResolved others rfl)
          rw [Option.some.inj equal]

/-- Apart from deferred fields, a source has one translation, by cases on the source. -/
theorem Translates.unique {origin : Origin} {left right : NamedType}
    (first : Translates int64 scope origin left) (second : Translates int64 scope origin right)
    (leftSettled : ¬ left.IsDeferred) (rightSettled : ¬ right.IsDeferred)
    : left = right := by
  cases first with
  | enumeration content =>
      cases second
      rfl
  | group typed =>
      cases second with
      | group others => rw [Option.some.inj (typed.symm.trans others)]
  | output kind resolved =>
      cases second with
      | input otherKind _ => cases kind.symm.trans otherKind
      | output _ others =>
          rw [resolved_unique resolved others]
          · exact fun same => leftSettled (congrArg some same)
          · exact fun same => rightSettled (congrArg some same)
  | input kind resolved =>
      cases second with
      | output otherKind _ => cases kind.symm.trans otherKind
      | input _ others =>
          rw [resolved_unique resolved others]
          · exact fun same => leftSettled (congrArg some same)
          · exact fun same => rightSettled (congrArg some same)

/-- What complete progress has registered for one list is registered alike for the other. -/
theorem Progress.Complete.agrees {progress rival : Progress} {name : String} {type : NamedType}
    (complete : progress.Complete int64 scope)
    (other_ : rival.Complete int64 (relist scope other)) (free : CollisionFree scope)
    (direct : DirectReferences scope) (same : SameTypes scope other)
    (found : progress.registry.get? name = some type)
    : rival.registry.get? name = some type := by
  obtain ⟨origin, needed, rfl, translates⟩ :=
    complete.consistent.translates free onlyListed_isOpen found
  have source := Needed.source needed free
  have otherFree := free.relist same
  obtain ⟨_, reference⟩ :=
    other_.registers otherFree (needed_relist free direct same needed)
  obtain ⟨otherType, otherFound, _⟩ := Progress.reference?_eq_some.mp reference
  obtain ⟨otherOrigin, otherNeeded, named, otherTranslates⟩ :=
    other_.consistent.translates otherFree onlyListed_isOpen otherFound
  have otherSource := same.source (Needed.source otherNeeded otherFree)
  cases otherSource.unique free source named
  -- Both types are translations of one source, and neither is without its fields.
  have equal := translates.unique (translates_relist free direct same source otherTranslates)
    (fun deferred => complete.settled _ ⟨_, found, deferred⟩)
    (fun deferred => other_.settled _ ⟨_, otherFound, deferred⟩)
  rw [equal]
  exact otherFound

/-- Complete conversions of the same types print the same definitions. -/
theorem Progress.Complete.definitions_eq {progress rival : Progress}
    (complete : progress.Complete int64 scope)
    (other_ : rival.Complete int64 (relist scope other)) (free : CollisionFree scope)
    (direct : DirectReferences scope) (same : SameTypes scope other)
    : progress.definitions = rival.definitions := by
  apply complete.consistent.definitions_congr other_.consistent
  intro type
  constructor
  · intro registered
    rcases registered with ⟨name, found⟩
    exact ⟨name, complete.agrees other_ free direct same found⟩
  · intro registered
    rcases registered with ⟨name, found⟩
    exact ⟨name, other_.agrees complete (free.relist same) (direct.relist same) same.symm found⟩

-----------------------------------------------------------------------------------------
-- Reading fields in any order
-----------------------------------------------------------------------------------------

/-- The call converts all deferred fields, or reads the fields of a registered message by a name
without leading dots.
-/
def Progress.Permits (progress : Progress) : Call → Prop
  | .build => False
  | .resolve _ => False
  | .fields reference =>
      reference.toList.head? ≠ some '.'
        ∧ ∃ type object,
            progress.registry.get? reference = some type ∧ type.object? = some object
  | .materialize => True
  | .schemas => False

/-- The progress is reached from that after building by calls each of which is permitted when it
is made.
-/
inductive Visited (int64 : Integer64) (scope : Scope) : Progress → Prop
  | built : Visited int64 scope (Call.build.after int64 scope {})
  | called {progress : Progress} {call : Call} (visited : Visited int64 scope progress)
    (permitted : progress.Permits call)
    : Visited int64 scope (call.after int64 scope progress)

/-- Forcing a name keeps an object an object, by cases on the outcome. -/
theorem Forced.object {name other : String} {result : Except ConversionError Unit}
    {type : NamedType} {object : ObjectType}
    (forced : Forced int64 scope before name (result, after))
    (found : before.registry.get? other = some type) (isObject : type.object? = some object)
    : ∃ later laterObject,
        after.registry.get? other = some later ∧ later.object? = some laterObject := by
  cases forced with
  | idle absent => exact ⟨type, object, found, isObject⟩
  | abandoned queued steps blocked =>
      have kept := Registers.retains steps found
      exact ⟨type, object, kept, isObject⟩
  | @converted message fields middle queued steps typed explains =>
      have kept : middle.registry.get? other = some type := Registers.retains steps found
      rw [Progress.registry_fill, kept]
      split
      · cases type with
        | object inner => exact ⟨_, _, rfl, rfl⟩
        | inputObject inner => exact ⟨_, _, rfl, rfl⟩
        | enumeration inner => cases isObject
        | union inner => cases isObject
      · exact ⟨type, object, rfl, isObject⟩

/-- A name that was forced with success is not deferred any more, by cases on the outcome. -/
theorem Forced.undeferred {name : String} {asked : Request → Prop}
    (forced : Forced int64 scope before name (.ok ⟨⟩, after))
    (consistent : before.Consistent int64 scope asked)
    : after.deferred.get? name = none := by
  cases forced with
  | idle absent => exact absent
  | @converted message fields middle queued steps typed explains =>
      obtain ⟨_, _, registered⟩ := consistent.queued queued
      have absent : (before.unqueue name).deferred.get? name = none := by
        rw [Progress.deferred_unqueue, if_pos rfl]
      exact Registers.undeferred steps registered absent

section

variable (free : CollisionFree scope) (direct : DirectReferences scope)
  (convertible : Convertible scope)

include free direct convertible

/-- Reading the fields of a registered message succeeds while a conversion is under way. -/
theorem fields_succeeds {reference : String} (underway : before.Underway int64 scope)
    (permitted : before.Permits (.fields reference))
    : ∃ definitions after,
        exec (GraphQL.fields int64 scope reference) before = (.ok definitions, after)
        ∧ after.Underway int64 scope := by
  rcases permitted with ⟨plain, type, object, found, isObject⟩
  obtain ⟨after, run⟩ := force_succeeds free direct convertible reference underway
  have forced := forced_of_run run
  have next := forced.underway underway
  obtain ⟨later, laterObject, kept, laterIsObject⟩ := forced.object found isObject
  have absent : reference ∉ after.deferred.keys := by
    intro member
    obtain ⟨_, queued⟩ := OrderedMap.mem_keys_iff.mp member
    cases (forced.undeferred underway.consistent).symm.trans queued
  obtain ⟨taken, accounts⟩ := next.accounts
  have settled : ¬ after.Pending reference := by
    intro pending
    exact (accounts.pending.mp pending).elim absent List.not_mem_nil
  have resolved : ∃ definitions, later.fields? = some definitions := by
    cases known : laterObject.fields with
    | resolved definitions =>
        refine ⟨definitions, ?_⟩
        simp only [NamedType.fields?, laterIsObject, Option.bind_some, known, Fields.known?]
    | deferred =>
        refine absurd ⟨later, kept, ?_⟩ settled
        rw [NamedType.IsDeferred, laterIsObject, Option.map_some, known]
  rcases resolved with ⟨definitions, same⟩
  refine ⟨definitions, after, ?_, next⟩
  unfold GraphQL.fields
  simp only [Name.dropLeadingDots_of_head? plain]
  rw [exec_bind_ok run, exec_get_bind, kept, Option.bind_some, same, exec_pure]

/-- A call that is permitted succeeds while a conversion is under way, and keeps it so. -/
theorem permitted_succeeds {call : Call} (underway : before.Underway int64 scope)
    (permitted : before.Permits call)
    : exec (call.pass int64 scope) before = (.ok ⟨⟩, call.after int64 scope before)
      ∧ (call.after int64 scope before).Underway int64 scope := by
  cases call with
  | build => cases permitted
  | resolve reference => cases permitted
  | schemas => cases permitted
  | materialize =>
      obtain ⟨after, run, complete⟩ := materialize_succeeds free direct convertible underway
      rw [Call.after, Call.pass, run]
      exact ⟨rfl, complete.toUnderway⟩
  | fields reference =>
      obtain ⟨definitions, after, run, next⟩ :=
        fields_succeeds free direct convertible underway permitted
      rw [Call.after, Call.pass, exec_discard, run]
      exact ⟨rfl, next⟩

/-- A conversion stays under way along permitted calls, by induction on these. -/
theorem Visited.underway (visited : Visited int64 scope progress)
    : progress.Underway int64 scope := by
  induction visited with
  | built =>
      obtain ⟨built, run⟩ := build_succeeds free direct convertible
      rw [Call.after, Call.pass, run]
      exact build_underway run
  | called _ permitted ih => exact (permitted_succeeds free direct convertible ih permitted).2

/-- Printing the definitions while a conversion is under way gives those of complete progress. -/
theorem schemas_succeeds (underway : before.Underway int64 scope)
    : ∃ after, exec (schemas int64 scope) before = (.ok after.definitions, after)
        ∧ after.Complete int64 scope := by
  obtain ⟨after, run, complete⟩ := materialize_succeeds free direct convertible underway
  refine ⟨after, ?_, complete⟩
  rw [exec_schemas, run]

end

/-- The order does not matter. If the conversion of some listed types succeeds, then it succeeds
with the same definitions for every list of the same types; and once such a list is built, reading
the fields of registered messages and converting all deferred fields succeed in any order and
number, after which the definitions are the same again.
-/
theorem convert_order_independent {int64 : Integer64} {scope : Scope} {definitions : List String}
    (free : CollisionFree scope) (direct : DirectReferences scope)
    (success : convert int64 scope = .ok definitions) {other : List Node}
    (same : SameTypes scope other)
    : convert int64 (relist scope other) = .ok definitions
      ∧ ∀ progress,
          Visited int64 (relist scope other) progress
          → (∀ call,
              progress.Permits call
              → (exec (call.pass int64 (relist scope other)) progress).1 = .ok ⟨⟩)
            ∧ (exec (schemas int64 (relist scope other)) progress).1 = .ok definitions := by
  have complete := convert_complete success
  have otherFree := free.relist same
  have otherDirect := direct.relist same
  have otherConvertible := (complete.convertible free).relist free direct same
  obtain ⟨_, _, _, printed⟩ := convert_ok success
  have prints {last : Progress} (lastComplete : last.Complete int64 (relist scope other))
      : last.definitions = definitions := by
    rw [printed]
    exact (complete.definitions_eq lastComplete free direct same).symm
  refine ⟨?lists, ?calls⟩
  case lists =>
    obtain ⟨built, builds⟩ := build_succeeds otherFree otherDirect otherConvertible
    obtain ⟨last, run, lastComplete⟩ :=
      materialize_succeeds otherFree otherDirect otherConvertible (build_underway builds)
    rw [convert_of_ok builds run, prints lastComplete]
  case calls =>
    intro progress visited
    have underway := visited.underway otherFree otherDirect otherConvertible
    constructor
    · intro call permitted
      rw [(permitted_succeeds otherFree otherDirect otherConvertible underway permitted).1]
    · obtain ⟨last, run, lastComplete⟩ :=
        schemas_succeeds otherFree otherDirect otherConvertible underway
      rw [run, prints lastComplete]

/-- Listing a message twice gives the same definitions, also after its fields were read before all
deferred fields are converted.
-/
theorem selfReference_order_independent
    : ∃ definitions,
        convert .text selfReference = .ok definitions
        ∧ convert .text (relist selfReference [.message person, .message person]) = .ok definitions
        ∧ (exec (schemas .text selfReference)
            ((Call.fields "Person").after .text selfReference
              (Call.build.after .text selfReference {}))).1
          = .ok definitions := by
  obtain ⟨_, success⟩ := selfReference_converts
  have direct : DirectReferences selfReference := by
    intro name referenced
    rw [mentioned_selfReference (.referenced referenced)]
    exact .inl ⟨.message person, List.mem_singleton_self _, rfl⟩
  have twice : SameTypes selfReference [.message person, .message person] := by
    intro node
    simp [selfReference]
  have once : SameTypes selfReference [.message person] := fun node => Iff.rfl
  have registered
      : (Call.build.after .text selfReference {}).registry.get? "Person"
        = some (.object { name := "Person" }) := by decide +kernel
  have visited : Visited .text selfReference
      ((Call.fields "Person").after .text selfReference
        (Call.build.after .text selfReference {})) :=
    .called .built ⟨by decide, _, _, registered, rfl⟩
  have repeated :=
    convert_order_independent selfReference_collisionFree direct success twice
  have read := convert_order_independent selfReference_collisionFree direct success once
  exact ⟨_, success, repeated.1, (read.2 _ visited).2⟩

end ProtoSchema.GraphQL
