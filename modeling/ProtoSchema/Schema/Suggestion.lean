import ProtoSchema.Name
import ProtoSchema.Text.EditDistance

/-! Suggestions for unknown names. A known name is close to an unknown one when the edit distance
of the whole names, or that of their last segments, is within a bound that depends on the length
of the shorter of the two; the first of the closest known names is suggested.
-/

namespace ProtoSchema.Schema.Suggestion

/-- The edit distance of two texts, from the rows of its table, which have every cell that is asked
for.
-/
def distance (left right : String) : Nat :=
  (Text.rowDistance? left.toList right.toList).get!

/-- The greatest distance at which texts count as close, by the bytes of the shorter one. -/
def bound (left right : String) : Nat :=
  if min left.utf8ByteSize right.utf8ByteSize ≤ 4 then 1 else 2

/-- The distance of two texts that are close to each other. -/
def closeness? (left right : String) : Option Nat :=
  let distance := distance left right
  if distance ≤ bound left right then some distance else none

/-- The lesser of the numbers that are present. -/
def least? : Option Nat → Option Nat → Option Nat
  | some left, some right => some (min left right)
  | some left, none => some left
  | none, right => right

/-- How far a known name is from an unknown one, if it is close to it. -/
def score? (unknown candidate : String) : Option Nat :=
  least? (closeness? unknown candidate)
    (closeness? (Name.simple unknown) (Name.simple candidate))

/-- Keeps the best candidate so far unless the next one is strictly closer. -/
def better (unknown : String) (best : Option (String × Nat)) (candidate : String)
    : Option (String × Nat) :=
  match score? unknown candidate, best with
  | none, _ => best
  | some score, none => some (candidate, score)
  | some score, some (chosen, least) =>
      if score < least then some (candidate, score) else some (chosen, least)

/-- The first of the closest known names. -/
def closest? (unknown : String) (known : List String) : Option String :=
  (known.foldl (better (Name.dropLeadingDots unknown)) none).map Prod.fst

/-- The hint that suggests a known name for an unknown one. -/
def hint? (unknown : String) (known : List String) : Option String :=
  (closest? unknown known).map fun name => s!"did you mean `{name}`?"

end ProtoSchema.Schema.Suggestion
