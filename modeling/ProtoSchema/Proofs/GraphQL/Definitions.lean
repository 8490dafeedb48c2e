import ProtoSchema.Proofs.GraphQL.Consistency
import ProtoSchema.Proofs.GraphQL.NameOrder

/-! The definitions that are printed: one for each registered type, in the strict order of the
names of types, so that they depend only on which types are registered.
-/

namespace ProtoSchema.GraphQL

open Schema
open Execution

variable {int64 : Integer64} {scope : Scope} {asked : Request → Prop} {progress : Progress}

/-- The registered types in the order in which they are printed. -/
def Progress.printed (progress : Progress) : List NamedType :=
  progress.registry.values.mergeSort fun left right => left.name ≤ right.name

theorem Progress.definitions_eq (progress : Progress)
    : progress.definitions = progress.printed.map NamedType.print :=
  rfl

theorem Progress.printed_perm (progress : Progress)
    : progress.printed.Perm progress.registry.values :=
  List.mergeSort_perm _ _

theorem Progress.mem_printed {type : NamedType}
    : type ∈ progress.printed ↔ ∃ name, progress.registry.get? name = some type := by
  rw [progress.printed_perm.mem_iff, OrderedMap.mem_values_iff]

/-- Registered types have distinct names, since each name of a type has one owner. -/
theorem Progress.Consistent.names_distinct (consistent : progress.Consistent int64 scope asked)
    : progress.registry.values.Pairwise fun left right => left.name ≠ right.name := by
  have keys : progress.registry.entries.Pairwise fun left right => left.1 ≠ right.1 :=
    List.pairwise_map.mp progress.registry.nodup
  refine List.pairwise_map.mpr (keys.imp_of_mem ?_)
  intro left right memberLeft memberRight distinct same
  exact distinct (consistent.owner_unique (OrderedMap.mem_entries_iff.mp memberLeft)
    (OrderedMap.mem_entries_iff.mp memberRight) same)

/-- What is printed is strictly ordered by name. -/
theorem Progress.Consistent.printed_strict (consistent : progress.Consistent int64 scope asked)
    : progress.printed.Pairwise fun left right => left.name < right.name := by
  have ordered : progress.printed.Pairwise fun left right => decide (left.name ≤ right.name) := by
    apply List.pairwise_mergeSort
    · intro first second third before_ after_
      simp only [decide_eq_true_eq] at before_ after_ ⊢
      exact String.le_trans before_ after_
    · intro first second
      simp only [Bool.or_eq_true, decide_eq_true_eq]
      exact String.le_total first.name second.name
  have distinct : progress.printed.Pairwise fun left right => left.name ≠ right.name :=
    (progress.printed_perm.pairwise_iff Ne.symm).mpr consistent.names_distinct
  refine ordered.imp₂ (fun left right le ne => ?_) distinct
  by_contra notLess
  exact ne (String.le_antisymm (of_decide_eq_true le) notLess)

/-- What is printed is strictly ordered by the bytes of the names. -/
theorem Progress.Consistent.printed_byteLess (consistent : progress.Consistent int64 scope asked)
    : progress.printed.Pairwise fun left right => ByteLess left.name right.name := by
  apply consistent.printed_strict.imp_of_mem
  intro left right memberLeft memberRight less
  obtain ⟨first, foundLeft⟩ := Progress.mem_printed.mp memberLeft
  obtain ⟨second, foundRight⟩ := Progress.mem_printed.mp memberRight
  obtain ⟨_, _, _, comesLeft⟩ := consistent.sound foundLeft
  obtain ⟨_, _, _, comesRight⟩ := consistent.sound foundRight
  rw [comesLeft.name, comesRight.name] at less ⊢
  exact byteLess_typeName less

/-- Progress of two conversions with the same registered types prints the same definitions. -/
theorem Progress.Consistent.definitions_congr {other : Progress} {otherScope : Scope}
    {otherAsked : Request → Prop} (consistent : progress.Consistent int64 scope asked)
    (otherConsistent : other.Consistent int64 otherScope otherAsked)
    (same
      : ∀ type,
          (∃ name, progress.registry.get? name = some type)
          ↔ ∃ name, other.registry.get? name = some type)
    : progress.definitions = other.definitions := by
  have strict := consistent.printed_strict
  have otherStrict := otherConsistent.printed_strict
  have distinct {types : List NamedType}
      (ordered : types.Pairwise fun left right => left.name < right.name)
      : types.Nodup := by
    refine ordered.imp fun less same => ?_
    rw [same] at less
    exact String.lt_irrefl _ less
  have perm : progress.printed.Perm other.printed := by
    apply (List.perm_ext_iff_of_nodup (distinct strict) (distinct otherStrict)).mpr
    intro type
    rw [Progress.mem_printed, Progress.mem_printed]
    exact same type
  have equal : progress.printed = other.printed := by
    refine perm.eq_of_pairwise ?_ strict otherStrict
    intro left right _ _ less greater
    exact absurd (String.lt_trans less greater) (String.lt_irrefl _)
  rw [Progress.definitions_eq, Progress.definitions_eq, equal]

end ProtoSchema.GraphQL
