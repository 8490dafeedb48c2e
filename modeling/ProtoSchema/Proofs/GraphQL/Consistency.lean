import ProtoSchema.Proofs.GraphQL.Calls

/-! The invariant of a conversion: every registered type is made from an origin that what was
asked for leads to, what is deferred is registered without its fields, and the claims are exactly
the names of the registered types.
-/

namespace ProtoSchema.GraphQL

open Schema

/-- What was asked for leads to the origin: a request allows it, or the fields of a message that
was itself led to.
-/
inductive Known (scope : Scope) (asked : Request → Prop) : Origin → Prop
  | asked {request : Request} {origin : Origin} (ask : asked request)
    (allowed : request.Allows scope origin)
    : Known scope asked origin
  | shown {message : Message} {origin : Origin}
    (known : Known scope asked (.node (.message message)))
    (allowed : (Request.fields message).Allows scope origin)
    : Known scope asked origin

/-- A type comes from its origin: as it is made, or with fields that match the properties of the
message one by one.
-/
inductive Progress.Comes (progress : Progress) (int64 : Integer64) (scope : Scope)
    : Origin → NamedType → Prop
  | made {origin : Origin} {type : NamedType} (made : progress.Makes int64 scope origin type)
    : Comes progress int64 scope origin type
  | filled {message : Message} {fields : List FieldDefinition}
    (typed : List.Forall₂ (progress.TypesSlot int64 scope message) message.slots fields)
    : Comes progress int64 scope (.node (.message message))
        ((objectType message).withFields fields)

/-- The registry, the deferred messages and the claims fit together. -/
structure Progress.Consistent (progress : Progress) (int64 : Integer64) (scope : Scope)
    (asked : Request → Prop)
    : Prop where
  sound
    : ∀ {name type},
        progress.registry.get? name = some type
        → ∃ origin, Known scope asked origin ∧ origin.name = name
            ∧ progress.Comes int64 scope origin type
  queued
    : ∀ {name message},
        progress.deferred.get? name = some message
        → message.name = name
          ∧ Known scope asked (.node (.message message))
          ∧ progress.registry.get? name = some (objectType message)
  claims
    : ∀ {name owner},
        progress.claimed.get? name = some owner
        ↔ ∃ type, progress.registry.get? owner = some type ∧ type.name = name

variable {int64 : Integer64} {scope : Scope} {asked : Request → Prop} {request : Request}
  {before middle after : Progress}

theorem Progress.consistent_start : Progress.Consistent {} int64 scope asked where
  sound := fun found => by simp at found
  queued := fun found => by simp at found
  claims := by simp

@[simp] theorem NamedType.name_withFields (type : NamedType) (fields : List FieldDefinition)
    : (type.withFields fields).name = type.name := by
  cases type <;> rfl

theorem Progress.Comes.keep {origin : Origin} {type : NamedType}
    (comes : before.Comes int64 scope origin type) (keeps : before.Keeps after)
    : after.Comes int64 scope origin type := by
  cases comes with
  | made made => exact .made (made.keep keeps)
  | filled typed => exact .filled (typed.imp fun _ _ typed => typed.keep keeps)

/-- Every type is named after its origin, also once it has its fields. -/
theorem Progress.Comes.name {progress : Progress} {origin : Origin} {type : NamedType}
    (comes : progress.Comes int64 scope origin type)
    : type.name = typeName origin.name := by
  cases comes with
  | made made => exact made.name
  | @filled message fields typed =>
      have made : progress.Makes int64 scope (.node (.message message)) (objectType message) :=
        .message message
      rw [NamedType.name_withFields]
      exact made.name

/-- Under a consistent registry, a reference has the name of the type that it was registered for.
-/
theorem Progress.Consistent.reference_eq {progress : Progress}
    (consistent : progress.Consistent int64 scope asked) {name : String} {type : TypeRef}
    (found : progress.reference? name = some type)
    : type = .named (typeName name) := by
  obtain ⟨named, registered, rfl⟩ := Progress.reference?_eq_some.mp found
  obtain ⟨origin, _, rfl, comes⟩ := consistent.sound registered
  rw [comes.name]

/-- Distinct registered names have distinct names of types. -/
theorem Progress.Consistent.owner_unique {progress : Progress}
    (consistent : progress.Consistent int64 scope asked) {first second : String}
    {left right : NamedType} (foundLeft : progress.registry.get? first = some left)
    (foundRight : progress.registry.get? second = some right) (same : left.name = right.name)
    : first = second := by
  have claimedLeft := consistent.claims.mpr ⟨left, foundLeft, rfl⟩
  have claimedRight := consistent.claims.mpr ⟨right, foundRight, rfl⟩
  rw [same] at claimedLeft
  exact Option.some.inj (claimedLeft.symm.trans claimedRight)

-----------------------------------------------------------------------------------------
-- Registrations preserve the invariant
-----------------------------------------------------------------------------------------

/-- The message whose fields are deferred with the type of the origin. -/
def Origin.message? : Origin → Option Message
  | .node (.message content) => some content
  | .node (.enumeration _) => none
  | .group _ _ => none

theorem Origin.message?_eq_some {origin : Origin} {message : Message}
    : origin.message? = some message ↔ origin = .node (.message message) := by
  constructor
  · intro found
    rcases origin with (content | content) | group
    · rw [Option.some.inj found]
    · cases found
    · cases found
  · rintro rfl
    rfl

theorem Progress.claimed_enter (progress : Progress) (origin : Origin) (type : NamedType)
    (name : String)
    : (progress.enter origin type).claimed.get? name
      = if name = type.name then some origin.name else progress.claimed.get? name :=
  OrderedMap.get?_insert _ _ _ _

/-- The messages deferred after one more type was entered, by cases on its origin. -/
theorem Progress.deferred_enter (progress : Progress) (origin : Origin) (type : NamedType)
    (name : String)
    : (progress.enter origin type).deferred.get? name
      = if name = origin.name ∧ origin.message?.isSome then origin.message?
        else progress.deferred.get? name := by
  rcases origin with (content | content) | group
  · by_cases same : name = content.name <;>
      simp [Progress.enter, Origin.name, Node.name, Origin.message?, OrderedMap.get?_insert, same]
  · simp [Progress.enter, Origin.message?]
  · simp [Progress.enter, Origin.message?]

/-- A request leads to what it allows, whether it was asked for or is about a message that was
led to.
-/
def Request.Leads (scope : Scope) (asked : Request → Prop) (request : Request) : Prop :=
  ∀ origin, request.Allows scope origin → Known scope asked origin

/-- A registration preserves the invariant. -/
theorem Registration.consistent (step : Registration int64 scope request before after)
    (leads : request.Leads scope asked) (consistent : before.Consistent int64 scope asked)
    : after.Consistent int64 scope asked := by
  have keeps := Registers.keeps (.single step)
  cases step with
  | @enter origin entered allowed made fresh free =>
      refine ⟨?sound, ?queued, ?claims⟩
      case sound =>
        intro name type found
        rw [Progress.registry_enter] at found
        split at found
        · next same =>
            cases found
            exact ⟨origin, leads origin allowed, same.symm, .made (made.keep keeps)⟩
        · obtain ⟨earlier, known, named, comes⟩ := consistent.sound found
          exact ⟨earlier, known, named, comes.keep keeps⟩
      case queued =>
        intro name message found
        rw [Progress.deferred_enter] at found
        split at found
        · next same =>
            cases Origin.message?_eq_some.mp found
            cases made
            refine ⟨same.1.symm, leads _ allowed, ?_⟩
            rw [Progress.registry_enter, if_pos same.1]
        · obtain ⟨named, known, registered⟩ := consistent.queued found
          refine ⟨named, known, ?_⟩
          rw [Progress.registry_enter, if_neg]
          · exact registered
          · rintro rfl
            cases fresh.symm.trans registered
      case claims =>
        intro name owner
        rw [Progress.claimed_enter, Progress.registry_enter]
        -- The new name owns exactly the name of its type; the claims of others stay, since the
        -- name of the type was free.
        by_cases same : owner = origin.name
        · subst same
          rw [if_pos rfl]
          constructor
          · intro claimed
            split at claimed
            · next named => exact ⟨entered, rfl, named.symm⟩
            · obtain ⟨type, found, _⟩ := consistent.claims.mp claimed
              cases fresh.symm.trans found
          · rintro ⟨type, found, rfl⟩
            cases found
            rw [if_pos rfl]
        · rw [if_neg same]
          split
          · next named =>
              constructor
              · intro claimed
                exact absurd (Option.some.inj claimed).symm same
              · rintro ⟨type, found, rfl⟩
                exact absurd (free owner (consistent.claims.mpr ⟨type, found, named⟩)) same
          · exact consistent.claims

theorem Registers.consistent (steps : Registers int64 scope request before after)
    (leads : request.Leads scope asked) (consistent : before.Consistent int64 scope asked)
    : after.Consistent int64 scope asked := by
  induction steps with
  | refl => exact consistent
  | tail _ step ih => exact step.consistent leads ih

-----------------------------------------------------------------------------------------
-- Forcing preserves the invariant
-----------------------------------------------------------------------------------------

theorem Progress.deferred_unqueue (progress : Progress) (name other : String)
    : (progress.unqueue name).deferred.get? other
      = if other = name then none else progress.deferred.get? other :=
  OrderedMap.get?_erase _ _ _

/-- What is no longer deferred leaves the rest of the invariant as it is. -/
theorem Progress.Consistent.unqueue (consistent : before.Consistent int64 scope asked)
    (name : String)
    : (before.unqueue name).Consistent int64 scope asked where
  sound := fun found => by
    obtain ⟨origin, known, named, comes⟩ := consistent.sound found
    exact ⟨origin, known, named, comes.keep fun _ _ found => found⟩
  claims := consistent.claims
  queued := by
    intro other message found
    rw [Progress.deferred_unqueue] at found
    split at found
    · cases found
    · exact consistent.queued found

/-- A name that is registered is not deferred anew, by induction on the registrations. -/
theorem Registers.undeferred (steps : Registers int64 scope request before after)
    {name : String} {type : NamedType} (registered : before.registry.get? name = some type)
    (absent : before.deferred.get? name = none)
    : after.deferred.get? name = none := by
  induction steps with
  | refl => exact absent
  | tail earlier step ih =>
      have found := Registers.retains earlier registered
      cases step with
      | enter allowed made fresh free =>
          rw [Progress.deferred_enter, if_neg]
          · exact ih
          · rintro ⟨rfl, _⟩
            cases fresh.symm.trans found

theorem Progress.registry_fill (progress : Progress) (name : String)
    (fields : List FieldDefinition) (other : String)
    : (progress.fill name fields).registry.get? other
      = if other = name then (progress.registry.get? other).map (·.withFields fields)
        else progress.registry.get? other :=
  OrderedMap.get?_modify _ _ _ _

/-- Fields do not change what references are to. -/
theorem Progress.reference?_fill (progress : Progress) (name : String)
    (fields : List FieldDefinition) (other : String)
    : (progress.fill name fields).reference? other = progress.reference? other := by
  rw [Progress.reference?, Progress.reference?, Progress.registry_fill]
  split
  · cases progress.registry.get? other <;> simp
  · rfl

theorem Progress.keeps_fill (progress : Progress) (name : String) (fields : List FieldDefinition)
    : progress.Keeps (progress.fill name fields) := by
  intro other type found
  rw [Progress.reference?_fill]
  exact found

/-- Filling in the fields of a registered message that is not deferred preserves the invariant. -/
theorem Progress.Consistent.fill (consistent : before.Consistent int64 scope asked)
    {message : Message} {fields : List FieldDefinition}
    (known : Known scope asked (.node (.message message)))
    (registered : before.registry.get? message.name = some (objectType message))
    (undeferred : before.deferred.get? message.name = none)
    (typed : List.Forall₂ (before.TypesSlot int64 scope message) message.slots fields)
    : (before.fill message.name fields).Consistent int64 scope asked := by
  have keeps := before.keeps_fill message.name fields
  refine ⟨?sound, ?queued, ?claims⟩
  case sound =>
    intro name type found
    rw [Progress.registry_fill] at found
    split at found
    · next same =>
        subst same
        rw [registered] at found
        cases found
        exact ⟨_, known, rfl, .filled (typed.imp fun _ _ typed => typed.keep keeps)⟩
    · obtain ⟨origin, known, named, comes⟩ := consistent.sound found
      exact ⟨origin, known, named, comes.keep keeps⟩
  case queued =>
    intro name other found
    obtain ⟨named, known, stored⟩ := consistent.queued found
    refine ⟨named, known, ?_⟩
    rw [Progress.registry_fill, if_neg]
    · exact stored
    · rintro rfl
      cases undeferred.symm.trans found
  case claims =>
    intro name owner
    rw [Progress.registry_fill]
    apply consistent.claims.trans
    split
    · simp only [Option.map_eq_some_iff, exists_exists_and_eq_and, NamedType.name_withFields]
    · rfl

/-- Forcing preserves the invariant, by cases on its outcome. -/
theorem Forced.consistent {name : String} {result : Except ConversionError Unit}
    (forced : Forced int64 scope before name (result, after))
    (consistent : before.Consistent int64 scope asked)
    : after.Consistent int64 scope asked := by
  cases forced with
  | idle absent => exact consistent
  | abandoned queued steps blocked =>
      obtain ⟨rfl, known, registered⟩ := consistent.queued queued
      exact Registers.consistent steps (fun _ allowed => .shown known allowed)
        (consistent.unqueue _)
  | @converted message fields middle queued steps typed explains =>
      obtain ⟨rfl, known, registered⟩ := consistent.queued queued
      have preserved := Registers.consistent steps (fun _ allowed => .shown known allowed)
        (consistent.unqueue message.name)
      have absent : (before.unqueue message.name).deferred.get? message.name = none := by
        rw [Progress.deferred_unqueue, if_pos rfl]
      exact preserved.fill known (Registers.retains steps registered)
        (Registers.undeferred steps registered absent) typed

theorem Step.consistent (step : Step int64 scope asked before after)
    (consistent : before.Consistent int64 scope asked)
    : after.Consistent int64 scope asked := by
  cases step with
  | register ask step => exact step.consistent (fun _ allowed => .asked ask allowed) consistent
  | force forced => exact forced.consistent consistent

/-- Steps preserve the invariant, by induction on their number. -/
theorem Steps.consistent (steps : Steps int64 scope asked before after)
    (consistent : before.Consistent int64 scope asked)
    : after.Consistent int64 scope asked := by
  induction steps with
  | refl => exact consistent
  | tail _ step ih => exact step.consistent ih

/-- Forcing keeps the types of references, by cases on its outcome. -/
theorem Forced.keeps {name : String} {result : Except ConversionError Unit}
    (forced : Forced int64 scope before name (result, after))
    : before.Keeps after := by
  cases forced with
  | idle absent => exact fun _ _ found => found
  | abandoned queued steps blocked =>
      exact fun other type found => Registers.keeps steps other type found
  | converted queued steps typed explains =>
      exact fun other type found =>
        Progress.keeps_fill _ _ _ other type (Registers.keeps steps other type found)

/-- Steps keep the types of references, by induction on their number. -/
theorem Steps.keeps (steps : Steps int64 scope asked before after) : before.Keeps after := by
  induction steps with
  | refl => exact fun _ _ found => found
  | tail _ step ih =>
      apply ih.trans
      cases step with
      | register ask step => exact Registers.keeps (.single step)
      | force forced => exact forced.keeps

end ProtoSchema.GraphQL
