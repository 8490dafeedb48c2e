import ProtoSchema.Text.Uppercase

/-! Names of types are dotted paths: the last segment is the simple name and what comes before
it the enclosing scope. A name may be written with leading dots, which mark it as absolute.
-/

namespace ProtoSchema.Name

/-- The name without its leading dots. -/
def dropLeadingDots (name : String) : String :=
  .ofList (name.toList.dropWhile (· = '.'))

/-- Once dropped, there are no leading dots left, by induction on the characters. -/
@[simp] theorem dropLeadingDots_dropLeadingDots (name : String)
    : dropLeadingDots (dropLeadingDots name) = dropLeadingDots name := by
  have twice (chars : List Char) : (chars.dropWhile (· = '.')).dropWhile (· = '.')
      = chars.dropWhile (· = '.') := by
    induction chars with
    | nil => rfl
    | cons c rest ih => by_cases dot : c = '.' <;> simp [dot, ih]
  simp only [dropLeadingDots, String.toList_ofList, twice]

/-- A name without leading dots stays as it is, by cases on its first character. -/
theorem dropLeadingDots_of_head? {name : String} (plain : name.toList.head? ≠ some '.')
    : dropLeadingDots name = name := by
  have kept : name.toList.dropWhile (· = '.') = name.toList := by
    cases chars : name.toList with
    | nil => rfl
    | cons first rest =>
        rw [chars] at plain
        have other : first ≠ '.' := fun same => plain (congrArg some same)
        rw [List.dropWhile_cons_of_neg (by simpa using other)]
  rw [dropLeadingDots, kept, String.ofList_toList]

/-- The last segment of a name. -/
def simple (name : String) : String :=
  .ofList (name.toList.reverse.takeWhile (· ≠ '.')).reverse

/-- The name without its last segment and the dot before it; empty for a single segment. -/
def enclosing (name : String) : String :=
  .ofList ((name.toList.reverse.dropWhile (· ≠ '.')).drop 1).reverse

/-- A name inside a scope; the empty scope leaves it as it is. -/
def qualify (scope name : String) : String :=
  if scope = "" then name else scope ++ "." ++ name

/-- Dropping a nonempty name's last segment shortens it, since at least one character goes. -/
theorem enclosing_length_lt {name : String} (h : name ≠ "")
    : (enclosing name).toList.length < name.toList.length := by
  have nonempty : name.toList.reverse ≠ [] := by
    simpa using h
  have sublist := List.dropWhile_sublist (fun c => decide (c ≠ '.')) (l := name.toList.reverse)
  have bound := sublist.length_le
  simp only [enclosing, String.toList_ofList, List.length_reverse, List.length_drop] at bound ⊢
  have positive := List.length_pos_iff.mpr nonempty
  simp only [List.length_reverse] at positive
  omega

/-- The scopes that enclose a name's members, innermost first: the name itself, then what
encloses it, down to the empty scope.
-/
def scopes (name : String) : List String :=
  if name = "" then [""] else name :: scopes (enclosing name)
termination_by name.toList.length
decreasing_by exact enclosing_length_lt ‹_›

/-- Removes underscores and raises the first character of each part between them. -/
def pascalChars (raise : Bool) : List Char → List Char
  | [] => []
  | '_' :: rest => pascalChars true rest
  | c :: rest => (if raise then Text.upper c else [c]) ++ pascalChars false rest

/-- A snake-case or camel-case name in Pascal case. -/
def pascalCase (name : String) : String :=
  .ofList (pascalChars true name.toList)

end ProtoSchema.Name
