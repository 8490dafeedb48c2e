import Mathlib.Data.List.TakeWhile
import ProtoSchema.Proofs.GraphQL.Translation

/-! Which names of types are used, and by whom. A type is named after the name that it is registered
under, and each name of a type has one owner, whichever calls were made and however they ended.
-/

namespace ProtoSchema.GraphQL

open Schema
open Execution

/-- The characters that a name may begin with. -/
def isNameStart (c : Char) : Bool :=
  c = '_' || ('A' ≤ c && c ≤ 'Z') || ('a' ≤ c && c ≤ 'z')

/-- The text may stand as a name: a letter or an underscore first, and then any number of letters,
digits and underscores.
-/
def IsName (text : String) : Prop :=
  ∃ first rest, text.toList = first :: rest ∧ isNameStart first ∧ ∀ c ∈ rest, isNameChar c

-----------------------------------------------------------------------------------------
-- Names of types
-----------------------------------------------------------------------------------------

/-- A name may begin with any of its characters but a digit. -/
theorem isNameStart_of_isNameChar {c : Char} (allowed : isNameChar c)
    (digitless : ¬ ('0' ≤ c ∧ c ≤ '9'))
    : isNameStart c := by
  simp only [isNameChar, Bool.or_eq_true, Bool.and_eq_true, decide_eq_true_eq] at allowed
  simp only [isNameStart, Bool.or_eq_true, Bool.and_eq_true, decide_eq_true_eq]
  rcases allowed with ((underscore | digit) | upper) | lower
  · exact .inl (.inl underscore)
  · exact absurd digit digitless
  · exact .inl (.inr upper)
  · exact .inr lower

/-- Characters that may stand in a name make one once a digit at their start is guarded, unless
there are none; by cases on the first one.
-/
theorem isName_guardDigit {chars : List Char} (allowed : ∀ c ∈ chars, isNameChar c)
    : IsName (.ofList (guardDigit chars)) ↔ chars ≠ [] := by
  cases chars with
  | nil => simp [IsName, guardDigit]
  | cons first rest =>
      refine iff_of_true ?_ (List.cons_ne_nil first rest)
      rw [IsName, String.toList_ofList, guardDigit]
      by_cases digit : '0' ≤ first ∧ first ≤ '9'
      · rw [if_pos digit]
        exact ⟨'_', first :: rest, rfl, rfl, allowed⟩
      · rw [if_neg digit]
        have start := isNameStart_of_isNameChar (allowed first List.mem_cons_self) digit
        exact ⟨first, rest, rfl, start, fun c member => allowed c (List.mem_cons_of_mem _ member)⟩

/-- The name of a type is a name, unless the qualified name consists of dots. -/
theorem isName_typeName_iff (qualified : String)
    : IsName (typeName qualified) ↔ ∃ c ∈ qualified.toList, c ≠ '.' := by
  have allowed
      : ∀ c ∈ (Name.dropLeadingDots qualified).toList.map fun c => if isNameChar c then c else '_',
          isNameChar c := by
    intro c member
    obtain ⟨original, _, rfl⟩ := List.mem_map.mp member
    split
    · next kept => exact kept
    · rfl
  rw [typeName, isName_guardDigit allowed, ne_eq, List.map_eq_nil_iff, Name.dropLeadingDots,
    String.toList_ofList, List.dropWhile_eq_nil_iff]
  simp

-----------------------------------------------------------------------------------------
-- Owners
-----------------------------------------------------------------------------------------

/-- Each name of a type has one owner, after any calls in any order, also after calls that failed. A
type is named after the name that it is registered under, and the result is a name unless that one
consists of dots; the claims are exactly the inverse of the registry; and so no two registered
types share a name.
-/
theorem type_names_owned (int64 : Integer64) (scope : Scope) (calls : List Call)
    : (∀ qualified type,
        (Progress.afterCalls int64 scope {} calls).registry.get? qualified = some type
        → type.name = typeName qualified
          ∧ (IsName type.name ↔ ∃ c ∈ qualified.toList, c ≠ '.'))
      ∧ (∀ name owner,
          (Progress.afterCalls int64 scope {} calls).claimed.get? name = some owner
          ↔ ∃ type,
              (Progress.afterCalls int64 scope {} calls).registry.get? owner = some type
              ∧ type.name = name)
      ∧ ∀ first second left right,
          (Progress.afterCalls int64 scope {} calls).registry.get? first = some left
          → (Progress.afterCalls int64 scope {} calls).registry.get? second = some right
          → left.name = right.name
          → first = second := by
  have consistent := Progress.afterCalls_consistent int64 scope calls
  refine ⟨?named, fun _ _ => consistent.claims, ?distinct⟩
  case named =>
    intro qualified type found
    obtain ⟨origin, _, rfl, comes⟩ := consistent.sound found
    rw [comes.name]
    exact ⟨rfl, isName_typeName_iff origin.name⟩
  case distinct =>
    exact fun _ _ _ _ foundLeft foundRight same =>
      consistent.owner_unique foundLeft foundRight same

/-- A message and an enumeration with different names that both become `v1_Point` in GraphQL, and
a message whose name begins with a digit.
-/
def rivals : Scope where
  catalog := {}
  listed := [
    .message { name := "2d" },
    .message { name := "v1.Point" },
    .enumeration { name := "v1_Point" }]

/-- Of two types whose names meet, the first one keeps the name of its type when the second one is
rejected; a name that begins with a digit becomes one that may stand.
-/
theorem rivals_owned
    : (exec (build rivals : Pass Unit) {}).1
        = .error (.malformed (.sharedTypeName "v1.Point" "v1_Point" "v1_Point"))
      ∧ (Progress.afterCalls .text rivals {} [.build, .resolve "v1_Point"]).claimed.get? "v1_Point"
        = some "v1.Point"
      ∧ IsName "_2d" := by
  obtain ⟨named, owned, _⟩ := type_names_owned .text rivals [.build, .resolve "v1_Point"]
  refine ⟨by decide +kernel, (owned _ _).mpr ⟨.object { name := "v1_Point" }, ?_, rfl⟩, ?_⟩
  · decide +kernel
  · have found
        : (Progress.afterCalls .text rivals {} [.build, .resolve "v1_Point"]).registry.get? "2d"
          = some (.object { name := "_2d" }) := by
      decide +kernel
    exact (named "2d" _ found).2.mpr ⟨'2', by decide, by decide⟩

end ProtoSchema.GraphQL
