import ProtoSchema.Proofs.GraphQL.Translation
import ProtoSchema.Proofs.Schema.EntryNames

/-! Which entries a map field gets. The registry gives a map whatever stands under the name of its
entries; where names tell maps apart, that is the type of its own entries, unless a declared type or
a group has the name.
-/

namespace ProtoSchema.GraphQL

open Schema

variable {int64 : Integer64} {scope : Scope} {asked : Request → Prop} {progress : Progress}

/-- The names of entries tell the maps of declared messages apart. -/
def ClearMaps (scope : Scope) : Prop :=
  ∀ message field,
    Declares scope (.message message)
    → field ∈ message.fields
    → field.isMap
    → MapEntry.Clear message field

/-- What a type is made from belongs to the schema: it is declared, the entry of a map of a declared
message, or a group of one.
-/
inductive Belongs (scope : Scope) : Origin → Prop
  | declared {node : Node} (declared : Declares scope node) : Belongs scope (.node node)
  | entry {message : Message} {field : Field} {key : Scalar}
    (declared : Declares scope (.message message)) (member : field ∈ message.fields)
    (keyed : field.mapKey = some key)
    : Belongs scope (.node (.message (MapEntry.message message field key)))
  | group {message : Message} {group : String} (declared : Declares scope (.message message))
    (present : message.HasGroup group)
    : Belongs scope (.group message group)

/-- A message with a map or a group is declared, since entries have neither. -/
theorem Belongs.declares {message : Message} {field : Field}
    (belongs : Belongs scope (.node (.message message))) (member : field ∈ message.fields)
    (rich : field.mapKey ≠ none ∨ field.oneof ≠ none)
    : Declares scope (.message message) := by
  generalize named : Origin.node (.message message) = origin at belongs
  cases belongs with
  | declared declared =>
      cases named
      exact declared
  | group _ _ => cases named
  | entry _ _ _ =>
      rw [Node.message.inj (Origin.node.inj named)] at member
      obtain ⟨keyless, alone⟩ := MapEntry.plain_of_mem member
      exact absurd keyless (rich.resolve_right fun grouped => grouped alone)

/-- The fields of a message that belongs to the schema lead to what belongs to it. -/
theorem Belongs.allowed {message : Message} {origin : Origin}
    (belongs : Belongs scope (.node (.message message)))
    (allowed : (Request.fields message).Allows scope origin)
    : Belongs scope origin := by
  cases allowed with
  | found _ found => exact .declared (Scope.mem_of_find?_eq_some found)
  | group present =>
      obtain ⟨field, member, grouped⟩ := present
      have declared := belongs.declares member (.inr fun alone => by cases alone ▸ grouped)
      exact .group declared ⟨field, member, grouped⟩
  | value allowed =>
      cases allowed with
      | found _ found => exact .declared (Scope.mem_of_find?_eq_some found)
      | entry shown keyed =>
          have declared := belongs.declares shown.mem (.inl fun keyless => by cases keyless ▸ keyed)
          exact .entry declared shown.mem keyed

/-- All that open requests lead to belongs to the schema, by induction on how it was led to. -/
theorem Known.belongs {origin : Origin}
    (closed : ∀ request, asked request → request.message? = none)
    (known : Known scope asked origin)
    : Belongs scope origin := by
  induction known with
  | shown _ allowed ih => exact ih.allowed allowed
  | asked ask allowed =>
      have apart := closed _ ask
      cases allowed with
      | listed member => exact .declared (.inl member)
      | found _ found => exact .declared (Scope.mem_of_find?_eq_some found)
      | entry _ _ => cases apart
      | value _ => cases apart
      | group _ => cases apart

-----------------------------------------------------------------------------------------
-- Equal entries
-----------------------------------------------------------------------------------------

/-- A field that is no map has the base type of a field of any message whose type is the same up to
leading dots.
-/
theorem Progress.TypesBase.congr {first second : Message} {left right : Field} {base : TypeRef}
    (based : progress.TypesBase int64 scope first left base) (keyless : left.mapKey = none)
    (otherKeyless : right.mapKey = none) (same : left.type.absolute = right.type.absolute)
    : progress.TypesBase int64 scope second right base := by
  cases based with
  | entry keyed _ => cases keyless.symm.trans keyed
  | scalar _ type =>
      rw [type] at same
      cases other : right.type with
      | scalar kind =>
          rw [other] at same
          cases same
          exact .scalar otherKeyless other
      | named reference =>
          rw [other] at same
          cases same
  | reference _ named resolves =>
      rw [named] at same
      cases other : right.type with
      | scalar kind =>
          rw [other] at same
          cases same
      | named reference =>
          rw [other] at same
          have dropped := FieldType.named.inj same
          refine .reference otherKeyless other ?_
          cases resolves with
          | registered found => exact .registered (dropped ▸ found)
          | declared denotes found =>
              rw [← Scope.find?_dropLeadingDots, dropped, Scope.find?_dropLeadingDots] at denotes
              exact .declared denotes found

/-- The same holds for the definitions of fields that differ in their types only. -/
theorem Progress.TypesSlot.congr {first second : Message} {left right : Field}
    {definition : FieldDefinition}
    (typed : progress.TypesSlot int64 scope first (.single left) definition)
    (keyless : left.mapKey = none) (same : left.type.absolute = right.type.absolute)
    (shape : right = { left with type := right.type })
    : progress.TypesSlot int64 scope second (.single right) definition := by
  have name : right.name = left.name := by rw [shape]
  have comment : right.comment = left.comment := by rw [shape]
  have otherKeyless : right.mapKey = none := by rw [shape, keyless]
  have wrap : wrapType right = wrapType left := by
    rw [shape]
    rfl
  cases typed with
  | single typed =>
      cases typed with
      | wrapped based =>
          rw [← name, ← comment, ← wrap]
          exact .single (.wrapped (based.congr keyless otherKeyless same))

/-- A type that comes from a message comes from any other one with the same type and with properties
that have the same fields.
-/
theorem Progress.Comes.congr {first second : Message} {type : NamedType}
    (comes : progress.Comes int64 scope (.node (.message first)) type)
    (object : objectType first = objectType second)
    (slots
      : ∀ fields,
          List.Forall₂ (progress.TypesSlot int64 scope first) first.slots fields
          → List.Forall₂ (progress.TypesSlot int64 scope second) second.slots fields)
    : progress.Comes int64 scope (.node (.message second)) type := by
  cases comes with
  | made made =>
      cases made with
      | message _ =>
          rw [object]
          exact .made (.message second)
  | filled typed =>
      rw [object]
      exact .filled (slots _ typed)

/-- The type of an entry with deferred fields. -/
theorem objectType_entry (enclosing : Message) (field : Field) (key : Scalar)
    : objectType (MapEntry.message enclosing field key)
      = if enclosing.isInput then
          .inputObject { name := typeName (MapEntry.name enclosing field key) }
        else .object { name := typeName (MapEntry.name enclosing field key) } := by
  rw [objectType, MapEntry.message]

/-- A type that comes from an entry comes from any equal entry of that name. -/
theorem Progress.Comes.congr_entry {first second : Message} {left right : Field}
    {leftKey rightKey : Scalar} {type : NamedType}
    (comes
      : progress.Comes int64 scope (.node (.message (MapEntry.message first left leftKey))) type)
    (named : MapEntry.name first left leftKey = MapEntry.name second right rightKey)
    (same : MapEntry.SameEntry first second left right leftKey rightKey)
    : progress.Comes int64 scope (.node (.message (MapEntry.message second right rightKey)))
        type := by
  have keys : FieldType.absolute (.scalar leftKey) = .absolute (.scalar rightKey) := by
    rw [same.key]
  refine comes.congr ?object fun fields typed => ?slots
  case object =>
    simp only [objectType_entry, named, same.input]
  case slots =>
    rw [MapEntry.slots_message] at typed ⊢
    cases typed with
    | cons key rest =>
        cases rest with
        | cons value rest =>
            cases rest
            exact .cons (key.congr rfl keys rfl) (.cons (value.congr rfl same.value rfl) .nil)

/-- After any calls, what is registered under the name of the entries of a map comes from these
entries, unless the name is that of a declared type or of a group.
-/
theorem registered_entry (clear : ClearMaps scope) (calls : List Call) {message : Message}
    {field : Field} {key : Scalar} (declared : Declares scope (.message message))
    (member : field ∈ message.fields) (keyed : field.mapKey = some key) {type : NamedType}
    (found
      : (Progress.afterCalls int64 scope {} calls).registry.get?
          (MapEntry.name message field key)
        = some type)
    : (Progress.afterCalls int64 scope {} calls).Comes int64 scope
        (.node (.message (MapEntry.message message field key))) type
      ∨ (∃ node, Declares scope node ∧ node.name = MapEntry.name message field key)
      ∨ GroupName scope (MapEntry.name message field key) := by
  have consistent := Progress.afterCalls_consistent int64 scope calls
  obtain ⟨origin, known, named, comes⟩ := consistent.sound found
  have tells {message : Message} {field : Field} {key : Scalar}
      (declared : Declares scope (.message message)) (member : field ∈ message.fields)
      (keyed : field.mapKey = some key)
      : MapEntry.Clear message field :=
    clear message field declared member (by rw [Field.isMap, keyed]; rfl)
  cases known.belongs fun _ apart => apart with
  | declared other => exact .inr (.inl ⟨_, other, named⟩)
  | entry other inside otherKeyed =>
      rw [Origin.name_entry] at named
      have same := MapEntry.sameEntry_of_name_eq (tells other inside otherKeyed)
        (tells declared member keyed) named
      exact .inl (comes.congr_entry named same)
  | group other present =>
      rw [Origin.name] at named
      exact .inr (.inr (named ▸ .group other present))

end ProtoSchema.GraphQL
