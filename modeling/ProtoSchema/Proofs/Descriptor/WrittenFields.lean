import ProtoSchema.Proofs.Descriptor.WellShaped

/-! What is written for a field and what is read for it. Each member of a field's object says one
thing about the declared field, and joining a group changes none of them.
-/

namespace ProtoSchema.Descriptor

open Schema

variable {members : Entries Json} {value : Json} {name : String}

/-- The field is written with this rule. -/
def HasRule (rule : String) (value : Json) : Prop :=
  value.member? "rule" = some (.text rule)

/-- The field is written with a key type, which makes it a map. -/
def WrittenMap (value : Json) : Prop :=
  ∃ keyword, value.member? "keyType" = some (.text keyword)

/-- The options that are written for the field mark it as optional. -/
def MarkedOptional (value : Json) : Prop :=
  (value.member? "options").bind (Json.member? "proto3_optional") = some (.bool true)

/-- The declared field says what is written under the key of the entry, apart from groups. -/
structure ReadFrom (entry : String × Json) (field : FieldDeclaration) : Prop where
  name : field.name = entry.1
  type : entry.2.member? "type" = some (.text field.typeName)
  rule
    : ∀ rule keyword,
        Rule.keyword? rule = some keyword
        → (field.rule = rule ↔ HasRule keyword entry.2)
  keyed : field.mapKey.isSome ↔ WrittenMap entry.2
  marked : field.tracksPresence = true ↔ MarkedOptional entry.2

/-- A key type is read exactly if one is written as a text. -/
theorem keyTypeOf_isSome_iff {owner : String} {mapKey : Option Scalar}
    (success : keyTypeOf owner name members = .ok mapKey)
    : mapKey.isSome ↔ ∃ keyword, members.get? "keyType" = some (.text keyword) := by
  simp only [← bind_text?_eq_some_iff]
  unfold keyTypeOf at success
  split at success
  · next absent =>
      cases success
      simp [absent]
  · next keyword found =>
      split at success <;> cases success
      simp [found]

theorem bind_bool?_eq_some_iff {found : Option Json} {flag : Bool}
    : found.bind Json.bool? = some flag ↔ found = some (.bool flag) := by
  cases found with
  | none => simp
  | some value => cases value <;> simp [Json.bool?]

/-- A field is read from what is written for it, member by member. -/
theorem fieldOf_readFrom {owner : String} {field : FieldDeclaration}
    (success : fieldOf owner name value = .ok field)
    : ReadFrom (name, value) field := by
  unfold fieldOf at success
  split at success
  · cases success
  · next members object =>
      cases members?_eq_some object
      split at success
      · cases success
      · next typeName found =>
          obtain ⟨mapKey, keyed, same⟩ := Outcome.bind_eq_ok.mp success
          cases same
          exact {
            name := rfl
            type := bind_text?_eq_some_iff.mp found
            rule := fun _ _ named => rule_eq_iff named
            keyed := keyTypeOf_isSome_iff keyed
            marked := by
              simp only [Option.getD_eq_iff, bind_bool?_eq_some_iff, Bool.false_eq_true, and_false,
                or_false]
              rfl }

theorem ReadFrom.enrolled {entry : String × Json} {field : FieldDeclaration}
    (reads : ReadFrom entry field) (oneofs : List OneOf)
    : ReadFrom entry (enrolled oneofs field) :=
  ⟨reads.name, reads.type, reads.rule, reads.keyed, reads.marked⟩

theorem mapM_fieldOf_readFrom {owner : String} {fields : Entries Json}
    {before : List FieldDeclaration}
    (read : fields.mapM (fun entry => fieldOf owner entry.1 entry.2) = .ok before)
    : List.Forall₂ ReadFrom fields before :=
  (Outcome.mapM_eq_ok.mp read).imp fun _ _ success => fieldOf_readFrom success

/-- The fields of a message are read from those of its object one by one. -/
theorem messageOf_readFrom {fields : Entries Json} {content : MessageDeclaration}
    (success : messageOf name members = .ok content)
    (found : members.get? "fields" = some (.object fields))
    : List.Forall₂ ReadFrom fields content.fields := by
  obtain ⟨_, _, before, again, read, groups⟩ := messageOf_reads success
  cases found.symm.trans again
  rw [(groupsOf_eq_ok groups).2, List.forall₂_map_right_iff]
  exact (mapM_fieldOf_readFrom read).imp fun _ _ reads => reads.enrolled _

end ProtoSchema.Descriptor
