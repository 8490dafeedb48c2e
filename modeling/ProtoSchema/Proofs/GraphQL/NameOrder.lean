import ProtoSchema.GraphQL.NamedType

/-! The order of type names by their bytes. The names consist of characters of one byte each, so
that comparing characters and comparing bytes come to the same.
-/

namespace ProtoSchema.GraphQL

/-- The bytes of a text in UTF-8. -/
def utf8 (text : String) : List UInt8 :=
  text.toByteArray.data.toList

/-- The first text comes before the second one in the order of their bytes. -/
def ByteLess (first second : String) : Prop :=
  utf8 first < utf8 second

/-- A text in characters of one byte has these as its bytes, by induction on the characters. -/
theorem utf8_ofList {chars : List Char} (narrow : ∀ c ∈ chars, c.toNat < 128)
    : utf8 (.ofList chars) = chars.map fun c => c.val.toUInt8 := by
  rw [utf8, String.toByteArray_ofList, List.utf8Encode, List.toList_data_toByteArray]
  induction chars with
  | nil => rfl
  | cons c rest ih =>
      have small : c.val ≤ 127 := by
        rw [UInt32.le_iff_toNat_le]
        exact Nat.le_of_lt_succ (narrow c List.mem_cons_self)
      have size : c.utf8Size = 1 := Char.utf8Size_eq_one_iff.mpr small
      rw [List.flatMap_cons, String.utf8EncodeChar_eq_singleton size, List.map_cons,
        ih fun c member => narrow c (List.mem_cons_of_mem _ member)]
      rfl

theorem toNat_byte {c : Char} (narrow : c.toNat < 128) : c.val.toUInt8.toNat = c.toNat := by
  rw [UInt32.toNat_toUInt8]
  exact Nat.mod_eq_of_lt (Nat.lt_trans narrow (by decide))

/-- Characters of one byte are ordered like their bytes, by induction on both lists. -/
theorem map_byte_lt {left right : List Char} (narrowLeft : ∀ c ∈ left, c.toNat < 128)
    (narrowRight : ∀ c ∈ right, c.toNat < 128) (less : left < right)
    : (left.map fun c => c.val.toUInt8) < right.map fun c => c.val.toUInt8 := by
  induction left generalizing right with
  | nil =>
      cases right with
      | nil => exact absurd less (List.lt_irrefl _)
      | cons c rest => exact .nil
  | cons first rest ih =>
      cases right with
      | nil => exact absurd less (List.not_lt_nil _)
      | cons second others =>
          have boundFirst := narrowLeft first List.mem_cons_self
          have boundSecond := narrowRight second List.mem_cons_self
          rw [List.map_cons, List.map_cons, List.cons_lt_cons_iff]
          rcases List.cons_lt_cons_iff.mp less with head | ⟨same, tail⟩
          · refine .inl ?_
            rw [UInt8.lt_iff_toNat_lt, toNat_byte boundFirst, toNat_byte boundSecond]
            exact head
          · refine .inr ⟨by rw [same], ih ?_ ?_ tail⟩
            · exact fun c member => narrowLeft c (List.mem_cons_of_mem _ member)
            · exact fun c member => narrowRight c (List.mem_cons_of_mem _ member)

theorem isNameChar_narrow {c : Char} (allowed : isNameChar c) : c.toNat < 128 := by
  have numbers : c.toNat = 95 ∨ c.toNat ≤ 122 := by
    simp only [isNameChar, Bool.or_eq_true, Bool.and_eq_true, decide_eq_true_eq] at allowed
    rcases allowed with ((same | digit) | upper) | lower
    · exact .inl (by rw [same]; rfl)
    · exact .inr (Nat.le_trans digit.2 (by decide))
    · exact .inr (Nat.le_trans upper.2 (by decide))
    · exact .inr lower.2
  omega

/-- A guarded name has an underscore at most that it had not before. -/
theorem mem_guardDigit {c : Char} {chars : List Char} (member : c ∈ guardDigit chars)
    : c = '_' ∨ c ∈ chars := by
  cases chars with
  | nil => exact .inr member
  | cons first rest =>
      simp only [guardDigit] at member
      split at member
      · exact List.mem_cons.mp member
      · exact .inr member

/-- The name of a type consists of characters of one byte. -/
theorem typeName_narrow (qualified : String)
    : ∀ c ∈ (typeName qualified).toList, c.toNat < 128 := by
  intro c member
  rw [typeName, String.toList_ofList] at member
  rcases mem_guardDigit member with rfl | kept
  · decide
  · obtain ⟨original, _, rfl⟩ := List.mem_map.mp kept
    split
    · next allowed => exact isNameChar_narrow allowed
    · decide

/-- Names of types are ordered like their bytes. -/
theorem byteLess_typeName {first second : String} (less : typeName first < typeName second)
    : ByteLess (typeName first) (typeName second) := by
  have bytes := map_byte_lt (typeName_narrow first) (typeName_narrow second) less
  rw [← utf8_ofList (typeName_narrow first), ← utf8_ofList (typeName_narrow second),
    String.ofList_toList, String.ofList_toList] at bytes
  exact bytes

end ProtoSchema.GraphQL
