import ProtoSchema.Proofs.GraphQL.Registration

/-! Reachability of registered types by the names that stand in their fields and members, and
the part of it that one step of a conversion adds: what is newly registered is reached from the
types that the step gives.
-/

namespace ProtoSchema.GraphQL

open Schema

/-- The names of types in the fields of an object, as far as they are known. -/
def ObjectType.baseNames (type : ObjectType) : List String :=
  (type.fields.known?.getD []).map fun field => field.type.baseName

/-- The names of types in the fields or members of a type. -/
def NamedType.baseNames : NamedType → List String
  | .object type => type.baseNames
  | .inputObject type => type.baseNames
  | .enumeration _ => []
  | .union type => type.members.map TypeRef.baseName

/-- From the names of some types a registered one is reached by following the names in fields and
members finitely often.
-/
inductive Progress.Leads (progress : Progress) (roots : List String) : String → Prop
  | root {name : String} (member : name ∈ roots) : Leads progress roots name
  | follow {name next qualified : String} {type : NamedType}
    (path : Leads progress roots name)
    (found : progress.registry.get? qualified = some type) (named : type.name = name)
    (member : next ∈ type.baseNames)
    : Leads progress roots next

/-- Registered types keep their names, and no name in their fields or members is lost. -/
def Progress.Extends (before after : Progress) : Prop :=
  ∀ name type,
    before.registry.get? name = some type
    → ∃ later, after.registry.get? name = some later
        ∧ later.name = type.name
        ∧ type.baseNames ⊆ later.baseNames

theorem Progress.Extends.trans {before middle after : Progress} (first : before.Extends middle)
    (second : middle.Extends after)
    : before.Extends after := by
  intro name type found
  obtain ⟨between, foundBetween, sameName, bases⟩ := first name type found
  obtain ⟨later, foundLater, laterName, laterBases⟩ := second name between foundBetween
  exact ⟨later, foundLater, laterName.trans sameName, List.Subset.trans bases laterBases⟩

/-- What is reached stays reachable from more roots in an extended progress, by induction on the
path.
-/
theorem Progress.Leads.mono {before after : Progress} {roots more : List String} {name : String}
    (path : before.Leads roots name) (extends_ : before.Extends after)
    (subset : ∀ root ∈ roots, after.Leads more root)
    : after.Leads more name := by
  induction path with
  | root member => exact subset _ member
  | follow _ found named member ih =>
      obtain ⟨later, foundLater, sameName, bases⟩ := extends_ _ _ found
      exact .follow ih foundLater (sameName.trans named) (bases member)

variable {int64 : Integer64} {scope : Scope} {request : Request}
  {before middle after : Progress}

theorem Registers.extends (steps : Registers int64 scope request before after)
    : before.Extends after :=
  fun _ type found => ⟨type, Registers.retains steps found, rfl, List.Subset.refl _⟩

/-- All that is newly registered is reached from the names in some types. -/
def Explains (before after : Progress) (types : List TypeRef) : Prop :=
  ∀ name type,
    after.registry.get? name = some type
    → before.registry.get? name = some type
      ∨ after.Leads (types.map TypeRef.baseName) type.name

theorem Explains.refl (progress : Progress) (types : List TypeRef)
    : Explains progress progress types :=
  fun _ _ found => .inl found

/-- Explanations of consecutive steps combine. -/
theorem Explains.append {first second : List TypeRef} (head : Explains before middle first)
    (tail : Explains middle after second)
    (steps : Registers int64 scope request middle after)
    : Explains before after (first ++ second) := by
  intro name type found
  rcases tail name type found with earlier | path
  · apply (head name type earlier).imp_right
    intro path
    exact path.mono (Registers.extends steps) fun root member =>
      .root (by simp only [List.map_append, List.mem_append, member, true_or])
  · refine .inr (path.mono (fun _ type found => ⟨type, found, rfl, List.Subset.refl _⟩) ?_)
    exact fun root member =>
      .root (by simp only [List.map_append, List.mem_append, member, or_true])

end ProtoSchema.GraphQL
