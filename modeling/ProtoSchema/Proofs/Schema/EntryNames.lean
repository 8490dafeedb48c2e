import Mathlib.Data.List.TakeWhile
import ProtoSchema.Schema.MapEntry

/-! What the name of an entry tells about its map. After its last dot the name is free of
underscores up to the mark of an entry, and so is the keyword of the key that follows; so the name
determines the key, the name of the value, and what stands before the mark. It does not determine
more: an underscore of a reference may stand for a dot, a reference may be spelled like a keyword,
and the mark of an input may be the end of the name of a field.
-/

namespace ProtoSchema

-----------------------------------------------------------------------------------------
-- Characters of converted names
-----------------------------------------------------------------------------------------

/-- Only its own code gives an underscore, by cases on whether a code is that of a character. -/
theorem Text.ofNat_eq_underscore {code : Nat} (same : Char.ofNat code = '_') : code = 0x5F := by
  have value := congrArg Char.toNat same
  unfold Char.ofNat at value
  by_cases valid : code.isValidChar
  · rw [dif_pos valid] at value
    exact value
  · rw [dif_neg valid] at value
    cases value

/-- No other character has an underscore in its uppercase form, by inspection of the table. -/
theorem Text.underscore_notMem_upper {c : Char} (other : c ≠ '_') : '_' ∉ Text.upper c := by
  have expansions : ∀ entry ∈ upperExpansions, 0x5F ∉ entry.2 := by decide +kernel
  have runs : ∀ run ∈ upperRuns, run.covers (0x5F - run.shift).toNat = false := by decide +kernel
  unfold upper
  intro member
  split at member
  · next codes found =>
      obtain ⟨code, inside, same⟩ := List.mem_map.mp member
      rw [Text.ofNat_eq_underscore same] at inside
      obtain ⟨_, _, table, _⟩ := List.lookup_eq_some_iff.mp found
      exact expansions (c.toNat, codes) (table ▸ List.mem_append_right _ List.mem_cons_self) inside
  · split at member
    · next run found =>
        have code := Text.ofNat_eq_underscore (List.mem_singleton.mp member).symm
        have covers := List.find?_some found
        have back : (0x5F - run.shift).toNat = c.toNat := by omega
        rw [← back, runs run (List.mem_of_find?_eq_some found)] at covers
        cases covers
    · exact other (List.mem_singleton.mp member).symm

/-- A name in Pascal case has no underscores, by induction on the characters of the name. -/
theorem Name.underscore_notMem_pascalChars (raise : Bool) (chars : List Char)
    : '_' ∉ pascalChars raise chars := by
  induction raise, chars using pascalChars.induct with
  | case1 raise => exact List.not_mem_nil
  | case2 raise rest ih => exact ih
  | case3 raise c rest other ih =>
      rw [pascalChars]
      · intro member
        rcases List.mem_append.mp member with here | later
        · cases raise with
          | true => exact Text.underscore_notMem_upper other here
          | false => exact other (List.mem_singleton.mp here).symm
        · exact ih later
      · exact other

theorem Name.underscore_notMem_pascalCase (name : String) : '_' ∉ (pascalCase name).toList := by
  rw [pascalCase, String.toList_ofList]
  exact underscore_notMem_pascalChars true name.toList

-----------------------------------------------------------------------------------------
-- Last segments
-----------------------------------------------------------------------------------------

/-- What is added to a name without a dot is added to its last segment. -/
theorem Name.toList_simple_append (stem : String) {rest : String} (plain : '.' ∉ rest.toList)
    : (simple (stem ++ rest)).toList = (simple stem).toList ++ rest.toList := by
  have whole : ∀ c ∈ rest.toList.reverse, decide (c ≠ '.') = true := by
    intro c member
    refine decide_eq_true fun same => plain ?_
    exact same ▸ List.mem_reverse.mp member
  rw [simple, simple, String.toList_ofList, String.toList_ofList, String.toList_append,
    List.reverse_append, List.takeWhile_append_of_pos whole, List.reverse_append,
    List.reverse_reverse]

/-- The last segment of a qualified name comes from the name that was qualified. -/
theorem Name.mem_of_mem_simple_qualify {scope name : String} {c : Char}
    (member : c ∈ (simple (qualify scope name)).toList)
    : c ∈ name.toList := by
  rw [simple, String.toList_ofList, List.mem_reverse, qualify] at member
  split at member
  · exact List.mem_reverse.mp ((List.takeWhile_sublist _).subset member)
  · -- The dot before the name ends the segment.
    rw [String.toList_append, String.toList_append, List.append_assoc, List.reverse_append,
      List.reverse_append, List.append_assoc] at member
    have stops (chars rest : List Char)
        : (chars ++ '.' :: rest).takeWhile (· ≠ '.') = chars.takeWhile (· ≠ '.') := by
      simpa [List.takeWhile_append] using fun whole =>
        ((List.takeWhile_prefix _).eq_of_length whole).symm
    rw [show ".".toList.reverse = ['.'] from rfl, List.singleton_append, stops] at member
    exact List.mem_reverse.mp ((List.takeWhile_sublist _).subset member)

/-- A text is cut in one way at its first separator. -/
theorem append_separator_inj {c : Char} {first second rest tail : List Char} (left : c ∉ first)
    (right : c ∉ second) (same : first ++ c :: rest = second ++ c :: tail)
    : first = second ∧ rest = tail := by
  have cut {chars : List Char} (rest : List Char) (absent : c ∉ chars)
      : (chars ++ c :: rest).takeWhile (· ≠ c) = chars := by
    have inside : ∀ other ∈ chars, decide (other ≠ c) = true := fun other member =>
      decide_eq_true fun same => absent (same ▸ member)
    rw [List.takeWhile_append_of_pos inside]
    simp
  have heads : first = second := by rw [← cut rest left, same, cut tail right]
  rw [heads] at same
  exact ⟨heads, (List.cons.inj (List.append_cancel_left same)).2⟩

theorem Schema.Scalar.keyword_injective {left right : Schema.Scalar}
    (same : left.keyword = right.keyword)
    : left = right := by
  have found := Scalar.ofKeyword?_keyword left
  rw [same, Scalar.ofKeyword?_keyword] at found
  exact (Option.some.inj found).symm

theorem Schema.Scalar.underscore_notMem_keyword (scalar : Schema.Scalar)
    : '_' ∉ scalar.keyword.toList := by
  cases scalar <;> decide

namespace Schema.MapEntry

/-- What stands before the mark of an entry: the scope, the name of the field, and for input the
mark of an input.
-/
def stem (enclosing : Message) (field : Field) : String :=
  Name.qualify (Name.enclosing enclosing.name)
    (Name.pascalCase field.name ++ if enclosing.isInput then "Input" else "")

/-- The mark of an entry, the key and the value. -/
def ending (key : Scalar) (value : FieldType) : String :=
  "Entry_" ++ key.keyword ++ "_" ++ valueName value

theorem name_eq_append (enclosing : Message) (field : Field) (key : Scalar)
    : name enclosing field key = stem enclosing field ++ ending key field.type := by
  unfold name stem ending Name.qualify
  split <;> simp only [String.append_assoc]

theorem dot_notMem_valueName (value : FieldType) : '.' ∉ (valueName value).toList := by
  cases value with
  | scalar kind => cases kind <;> decide
  | named reference =>
      rw [valueName, String.toList_ofList]
      intro member
      obtain ⟨c, _, same⟩ := List.mem_map.mp member
      split at same
      · cases same
      · next other => exact other same

theorem dot_notMem_ending (key : Scalar) (value : FieldType) : '.' ∉ (ending key value).toList := by
  have start : '.' ∉ ("Entry_" ++ key.keyword ++ "_").toList := by cases key <;> decide
  rw [ending, String.toList_append]
  exact fun member => (List.mem_append.mp member).elim start (dot_notMem_valueName value)

theorem underscore_notMem_stem (enclosing : Message) (field : Field)
    : '_' ∉ (Name.simple (stem enclosing field)).toList := by
  intro member
  have inside := Name.mem_of_mem_simple_qualify member
  rw [String.toList_append] at inside
  rcases List.mem_append.mp inside with here | mark
  · exact Name.underscore_notMem_pascalCase field.name here
  · revert mark
    split <;> decide

theorem toList_ending (key : Scalar) (value : FieldType)
    : (ending key value).toList
      = "Entry".toList ++ '_' :: (key.keyword.toList ++ '_' :: (valueName value).toList) := by
  simp [ending]

/-- The name of an entry determines its key, the name of its value and what stands before the mark
of an entry: these follow its last dot, with the underscores after the mark and after the key as the
first ones.
-/
theorem name_eq_iff {first second : Message} {left right : Field} {leftKey rightKey : Scalar}
    : name first left leftKey = name second right rightKey
      ↔ leftKey = rightKey
        ∧ valueName left.type = valueName right.type
        ∧ stem first left = stem second right := by
  rw [name_eq_append, name_eq_append]
  constructor
  · intro same
    have segments := congrArg (fun name => (Name.simple name).toList) same
    simp only [Name.toList_simple_append _ (dot_notMem_ending _ _), toList_ending,
      ← List.append_assoc _ "Entry".toList] at segments
    have unmarked (enclosing : Message) (field : Field)
        : '_' ∉ (Name.simple (stem enclosing field)).toList ++ "Entry".toList := by
      refine fun member => (List.mem_append.mp member).elim ?_ (by decide)
      exact underscore_notMem_stem enclosing field
    obtain ⟨_, rest⟩ :=
      append_separator_inj (unmarked first left) (unmarked second right) segments
    obtain ⟨keys, values⟩ :=
      append_separator_inj (Scalar.underscore_notMem_keyword leftKey)
        (Scalar.underscore_notMem_keyword rightKey) rest
    have key := Scalar.keyword_injective (String.toList_inj.mp keys)
    have value := String.toList_inj.mp values
    have endings : ending leftKey left.type = ending rightKey right.type := by
      rw [ending, ending, key, value]
    rw [endings] at same
    exact ⟨key, value, (String.append_left_inj _).mp same⟩
  · rintro ⟨rfl, values, stems⟩
    rw [stems, ending, ending, values]

end Schema.MapEntry

-----------------------------------------------------------------------------------------
-- Names that tell maps apart
-----------------------------------------------------------------------------------------

/-- The type without leading dots of a reference. -/
def Schema.FieldType.absolute : Schema.FieldType → Schema.FieldType
  | .scalar kind => .scalar kind
  | .named reference => .named (Name.dropLeadingDots reference)

namespace Schema.MapEntry

/-- The name of an entry tells its map: a reference to its value has no underscores and is not
spelled like a keyword, and the name of a field that is not for input does not end like the mark of
an input.
-/
structure Clear (enclosing : Message) (field : Field) : Prop where
  value
    : ∀ reference,
        field.type = .named reference
        → '_' ∉ (Name.dropLeadingDots reference).toList
          ∧ Scalar.ofKeyword? (Name.dropLeadingDots reference) = none
  mark : enclosing.isInput = false → ¬ "Input".toList <:+ (Name.pascalCase field.name).toList

/-- The entries of two maps are equal up to leading dots of the reference to their value. -/
structure SameEntry (first second : Message) (left right : Field) (leftKey rightKey : Scalar)
    : Prop where
  key : leftKey = rightKey
  value : left.type.absolute = right.type.absolute
  input : first.isInput = second.isInput

/-- An entry has a property for its key and one for its value. -/
theorem slots_message (enclosing : Message) (field : Field) (key : Scalar)
    : (message enclosing field key).slots
      = [.single { name := "key", type := .scalar key },
          .single { name := "value", type := field.type }] :=
  rfl

/-- A reference without underscores is known by the name of its value. -/
theorem toList_reference {reference : String}
    (plain : '_' ∉ (Name.dropLeadingDots reference).toList)
    : (valueName (.named reference)).toList.map (fun c => if c = '_' then '.' else c)
      = (Name.dropLeadingDots reference).toList := by
  have undone (c : Char) (member : c ∈ (Name.dropLeadingDots reference).toList)
      : (if (if c = '.' then '_' else c) = '_' then '.' else if c = '.' then '_' else c) = c := by
    by_cases dot : c = '.'
    · simp [dot]
    · have other : c ≠ '_' := fun same => plain (same ▸ member)
      simp [dot, other]
  rw [valueName, String.toList_ofList, List.map_map]
  exact (List.map_congr_left undone).trans (List.map_id _)

/-- A value that is spelled like a keyword has the keyword for a name. -/
theorem ofKeyword?_of_valueName {reference : String} {kind : Scalar}
    (plain : '_' ∉ (Name.dropLeadingDots reference).toList)
    (same : valueName (.named reference) = kind.keyword)
    : Scalar.ofKeyword? (Name.dropLeadingDots reference) = some kind := by
  have chars := toList_reference plain
  have keyword : kind.keyword.toList.map (fun c => if c = '_' then '.' else c)
      = kind.keyword.toList := by cases kind <;> decide
  rw [same, keyword, String.toList_inj] at chars
  rw [← chars, Scalar.ofKeyword?_keyword]

/-- Clear values of one name are the same up to leading dots, by cases on both. -/
theorem absolute_eq_of_valueName {first second : Message} {left right : Field}
    (leftClear : Clear first left) (rightClear : Clear second right)
    (same : valueName left.type = valueName right.type)
    : left.type.absolute = right.type.absolute := by
  cases leftType : left.type with
  | scalar kind =>
      rw [leftType] at same
      cases rightType : right.type with
      | scalar other =>
          rw [rightType] at same
          rw [Scalar.keyword_injective same]
      | named reference =>
          rw [rightType] at same
          obtain ⟨plain, noKeyword⟩ := rightClear.value reference rightType
          cases noKeyword.symm.trans (ofKeyword?_of_valueName plain same.symm)
  | named reference =>
      rw [leftType] at same
      obtain ⟨plain, noKeyword⟩ := leftClear.value reference leftType
      cases rightType : right.type with
      | scalar kind =>
          rw [rightType] at same
          cases noKeyword.symm.trans (ofKeyword?_of_valueName plain same)
      | named other =>
          rw [rightType] at same
          have chars := toList_reference plain
          rw [same, toList_reference (rightClear.value other rightType).1] at chars
          rw [FieldType.absolute, FieldType.absolute, String.toList_inj.mp chars]

/-- What stands before the mark of an entry ends in that of an input only for input. -/
theorem input_of_suffix {enclosing : Message} {field : Field} (clear : Clear enclosing field)
    (suffix : "Input".toList <:+ (stem enclosing field).toList)
    : enclosing.isInput = true := by
  by_contra output
  have plain := clear.mark (Bool.not_eq_true _ ▸ output)
  rw [stem, if_neg output, String.append_empty, Name.qualify] at suffix
  split at suffix
  · exact plain suffix
  · -- The mark has no dot, so it is shorter than what follows the scope.
    rw [String.toList_append, String.toList_append, List.append_assoc] at suffix
    have dotted : ".".toList ++ (Name.pascalCase field.name).toList
        <:+ (Name.enclosing enclosing.name).toList
            ++ (".".toList ++ (Name.pascalCase field.name).toList) :=
      List.suffix_append _ _
    rcases List.suffix_or_suffix_of_suffix suffix dotted with within | beyond
    · rcases List.suffix_cons_iff.mp within with same | inside
      · cases same
      · exact plain inside
    · have dot : '.' ∈ "Input".toList := beyond.subset (List.mem_append_left _ (by decide))
      revert dot
      decide

theorem suffix_of_input {enclosing : Message} (field : Field) (input : enclosing.isInput = true)
    : "Input".toList <:+ (stem enclosing field).toList := by
  have marked : "Input".toList <:+ (Name.pascalCase field.name ++ "Input").toList := by
    rw [String.toList_append]
    exact List.suffix_append _ _
  rw [stem, if_pos input, Name.qualify]
  split
  · exact marked
  · rw [String.toList_append]
    exact marked.trans (List.suffix_append _ _)

/-- Where names tell maps apart, maps whose entries have one name have the same entries. -/
theorem sameEntry_of_name_eq {first second : Message} {left right : Field}
    {leftKey rightKey : Scalar} (leftClear : Clear first left) (rightClear : Clear second right)
    (same : name first left leftKey = name second right rightKey)
    : SameEntry first second left right leftKey rightKey := by
  obtain ⟨keys, values, stems⟩ := name_eq_iff.mp same
  refine ⟨keys, absolute_eq_of_valueName leftClear rightClear values, ?_⟩
  rw [Bool.eq_iff_iff]
  constructor
  · intro input
    have suffix := suffix_of_input left input
    rw [stems] at suffix
    exact input_of_suffix rightClear suffix
  · intro input
    have suffix := suffix_of_input right input
    rw [← stems] at suffix
    exact input_of_suffix leftClear suffix

end Schema.MapEntry

end ProtoSchema
