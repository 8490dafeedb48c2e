import Mathlib.Data.List.Forall2

/-! Outcomes of computations that may fail and have no state. A traversal succeeds exactly when
each of its items does, and it gives their values in order: its items and values are related one by
one.
-/

namespace ProtoSchema

/-- Every element of the second list is related to one of the first, by induction on the lists. -/
theorem related_of_mem {α β : Type} {Related : α → β → Prop} {first : List α} {second : List β}
    (all : List.Forall₂ Related first second) {value : β} (member : value ∈ second)
    : ∃ item ∈ first, Related item value := by
  induction all with
  | nil => exact absurd member List.not_mem_nil
  | cons head tail ih =>
      rcases List.mem_cons.mp member with rfl | later
      · exact ⟨_, List.mem_cons_self, head⟩
      · obtain ⟨item, present, related⟩ := ih later
        exact ⟨item, List.mem_cons_of_mem _ present, related⟩

theorem related_to_mem {α β : Type} {Related : α → β → Prop} {first : List α} {second : List β}
    (all : List.Forall₂ Related first second) {item : α} (member : item ∈ first)
    : ∃ value ∈ second, Related item value :=
  related_of_mem all.flip member

namespace Outcome

variable {ε α β : Type}

/-- A bind succeeds exactly when both of its parts do. -/
theorem bind_eq_ok {first : Except ε α} {next : α → Except ε β} {result : β}
    : (first >>= next) = .ok result ↔ ∃ value, first = .ok value ∧ next value = .ok result := by
  cases first with
  | error error =>
      constructor
      · intro impossible
        cases impossible
      · rintro ⟨_, impossible, _⟩
        cases impossible
  | ok value =>
      constructor
      · exact fun rest => ⟨value, rfl, rest⟩
      · rintro ⟨_, same, rest⟩
        cases same
        exact rest

/-- A traversal gives the values of its items, by induction on these. -/
theorem mapM_eq_ok {compute : α → Except ε β} {items : List α} {values : List β}
    : items.mapM compute = .ok values
      ↔ List.Forall₂ (fun item value => compute item = .ok value) items values := by
  induction items generalizing values with
  | nil =>
      rw [List.mapM_nil, List.forall₂_nil_left_iff]
      constructor
      · intro same
        cases same
        rfl
      · rintro rfl
        rfl
  | cons item rest ih =>
      rw [List.mapM_cons, bind_eq_ok, List.forall₂_cons_left_iff]
      simp only [bind_eq_ok, ih]
      constructor
      · rintro ⟨value, head, others, tail, same⟩
        cases same
        exact ⟨value, others, head, tail, rfl⟩
      · rintro ⟨value, others, head, tail, rfl⟩
        exact ⟨value, head, others, tail, rfl⟩

/-- Each value of a traversal comes from an item. -/
theorem exists_of_mem_mapM {compute : α → Except ε β} {items : List α} {values : List β}
    (success : items.mapM compute = .ok values) {value : β} (member : value ∈ values)
    : ∃ item ∈ items, compute item = .ok value :=
  related_of_mem (mapM_eq_ok.mp success) member

/-- Each item of a traversal gives one of its values. -/
theorem exists_of_mem_items {compute : α → Except ε β} {items : List α} {values : List β}
    (success : items.mapM compute = .ok values) {item : α} (member : item ∈ items)
    : ∃ value ∈ values, compute item = .ok value :=
  related_to_mem (mapM_eq_ok.mp success) member

/-- A traversal succeeds exactly if each of its items does, by induction on the items. -/
theorem exists_mapM_iff {compute : α → Except ε β} {items : List α}
    : (∃ values, items.mapM compute = .ok values)
      ↔ ∀ item ∈ items, ∃ value, compute item = .ok value := by
  simp only [mapM_eq_ok]
  induction items with
  | nil => simp
  | cons item rest ih =>
      rw [List.forall_mem_cons, ← ih]
      constructor
      · intro all
        obtain ⟨_, all⟩ := all
        cases all with
        | cons head tail => exact ⟨⟨_, head⟩, _, tail⟩
      · intro all
        obtain ⟨⟨value, head⟩, values, tail⟩ := all
        exact ⟨value :: values, .cons head tail⟩

/-- A traversal gives values with a property exactly if each of its items does. -/
theorem exists_mapM_and_iff {Property : β → Prop} {compute : α → Except ε β} {items : List α}
    : (∃ values, items.mapM compute = .ok values ∧ ∀ value ∈ values, Property value)
      ↔ ∀ item ∈ items, ∃ value, compute item = .ok value ∧ Property value := by
  constructor
  · rintro ⟨values, success, all⟩ item member
    obtain ⟨value, present, given⟩ := exists_of_mem_items success member
    exact ⟨value, given, all value present⟩
  · intro each
    obtain ⟨values, success⟩ := exists_mapM_iff.mpr fun item member =>
      (each item member).imp fun _ given => given.1
    refine ⟨values, success, fun value present => ?_⟩
    obtain ⟨item, member, given⟩ := exists_of_mem_mapM success present
    obtain ⟨other, again, property⟩ := each item member
    cases given.symm.trans again
    exact property

/-- Values that agree with their items in something agree with them one by one. -/
theorem map_eq_of_mapM {γ : Type} {compute : α → Except ε β} {items : List α} {values : List β}
    {before : α → γ} {after : β → γ} (success : items.mapM compute = .ok values)
    (same : ∀ item value, compute item = .ok value → after value = before item)
    : values.map after = items.map before := by
  have pairs := mapM_eq_ok.mp success
  clear success
  induction pairs with
  | nil => rfl
  | cons head _ ih => rw [List.map_cons, List.map_cons, same _ _ head, ih]

end Outcome

end ProtoSchema
