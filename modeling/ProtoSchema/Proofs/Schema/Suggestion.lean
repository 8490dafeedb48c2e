import ProtoSchema.Proofs.Text.EditDistance
import ProtoSchema.Schema.Suggestion

/-! Which name is suggested for an unknown one. Of the known names that are near enough to it by
their edit distance, this is the first one of those that are nearest, so names that are not near
enough, and names that come later and are not nearer, make no difference.
-/

namespace ProtoSchema.Schema.Suggestion

variable {unknown chosen : String} {known before after : List String} {score : Nat}

-----------------------------------------------------------------------------------------
-- Distances
-----------------------------------------------------------------------------------------

theorem distance_eq (left right : String)
    : distance left right = Text.editDistance left.toList right.toList := by
  rw [distance, Text.rowDistance?_eq_some, Option.get!_some]

/-- For all texts, each cell that is read or written is inside its row, for the rows would lead to
nothing otherwise, and the number they lead to is the edit distance of the characters.
-/
theorem rows_lead_to_edit_distance (left right : String)
    : Text.rowDistance? left.toList right.toList
        = some (Text.editDistance left.toList right.toList)
      ∧ distance left right = Text.editDistance left.toList right.toList :=
  ⟨Text.rowDistance?_eq_some left.toList right.toList, distance_eq left right⟩

/-- An exchange of two characters counts as two edits, and a character of two bytes as one. -/
example : distance "Odrer" "Order" = 2 ∧ distance "Zählung" "Zahlung" = 1 := by
  decide +kernel

-----------------------------------------------------------------------------------------
-- Names that are near enough
-----------------------------------------------------------------------------------------

/-- The edit distance of two texts is within the bound for the shorter of them: 1 if it has at
most 4 bytes, and 2 otherwise.
-/
def Within (left right : String) (distance : Nat) : Prop :=
  Text.editDistance left.toList right.toList = distance
  ∧ distance ≤ if min left.utf8ByteSize right.utf8ByteSize ≤ 4 then 1 else 2

/-- The names are within this distance as a whole, or their last segments are. -/
def Near (unknown candidate : String) (distance : Nat) : Prop :=
  Within unknown candidate distance
  ∨ Within (Name.simple unknown) (Name.simple candidate) distance

def Acceptable (unknown candidate : String) : Prop :=
  ∃ distance, Near unknown candidate distance

/-- The score of a candidate is the least of the distances that it is within. -/
structure Scores (unknown candidate : String) (score : Nat) : Prop where
  near : Near unknown candidate score
  least : ∀ distance, Near unknown candidate distance → score ≤ distance

/-- Between the names before it and those after it, the candidate is the first of those with the
least score.
-/
structure FirstClosest (unknown : String) (before : List String) (chosen : String)
    (after : List String) (score : Nat)
    : Prop where
  scores : Scores unknown chosen score
  earlier : ∀ candidate ∈ before, ∀ other, Scores unknown candidate other → score < other
  later : ∀ candidate ∈ after, ∀ other, Scores unknown candidate other → score ≤ other

theorem closeness?_eq_some_iff {left right : String} {distance : Nat}
    : closeness? left right = some distance ↔ Within left right distance := by
  simp only [closeness?, distance_eq, bound, Within,
    Option.ite_none_right_eq_some, Option.some.injEq]
  constructor
  · rintro ⟨bounded, rfl⟩
    exact ⟨rfl, bounded⟩
  · rintro ⟨rfl, bounded⟩
    exact ⟨bounded, rfl⟩

/-- The lesser of two numbers, as far as they are present, is one of them and no other is less; by
cases on which are.
-/
theorem least?_eq_some_iff {left right : Option Nat} {number : Nat}
    : least? left right = some number
      ↔ (left = some number ∨ right = some number)
        ∧ ∀ other, left = some other ∨ right = some other → number ≤ other := by
  cases left with
  | none =>
      cases right with
      | none => simp [least?]
      | some right =>
          simp only [least?, Option.some.injEq, reduceCtorEq, false_or, forall_eq']
          exact ⟨fun same => ⟨same, same.ge⟩, fun same => same.1⟩
  | some left =>
      cases right with
      | none =>
          simp only [least?, Option.some.injEq, reduceCtorEq, or_false, forall_eq']
          exact ⟨fun same => ⟨same, same.ge⟩, fun same => same.1⟩
      | some right =>
          simp only [least?, Option.some.injEq]
          constructor
          · rintro rfl
            exact ⟨by omega, by omega⟩
          · rintro ⟨one, least⟩
            have left_le := least left (.inl rfl)
            have right_le := least right (.inr rfl)
            omega

theorem least?_eq_none_iff {left right : Option Nat}
    : least? left right = none ↔ ¬ ∃ number, left = some number ∨ right = some number := by
  cases left <;> cases right <;> simp [least?]

theorem near_iff {candidate : String} {distance : Nat}
    : Near unknown candidate distance
      ↔ closeness? unknown candidate = some distance
        ∨ closeness? (Name.simple unknown) (Name.simple candidate) = some distance := by
  rw [Near, closeness?_eq_some_iff, closeness?_eq_some_iff]

theorem score?_eq_some_iff {candidate : String}
    : score? unknown candidate = some score ↔ Scores unknown candidate score := by
  rw [score?, least?_eq_some_iff]
  simp only [← near_iff]
  exact ⟨fun ⟨near, least⟩ => ⟨near, least⟩, fun ⟨near, least⟩ => ⟨near, least⟩⟩

theorem score?_eq_none_iff {candidate : String}
    : score? unknown candidate = none ↔ ¬ Acceptable unknown candidate := by
  rw [score?, least?_eq_none_iff, Acceptable]
  simp only [near_iff]

/-- The acceptable names are those that have a score. -/
theorem acceptable_iff {candidate : String}
    : Acceptable unknown candidate ↔ ∃ score, Scores unknown candidate score := by
  rw [← not_iff_not, ← score?_eq_none_iff, Option.eq_none_iff_forall_ne_some, not_exists]
  simp only [ne_eq, score?_eq_some_iff]

theorem Scores.unique {candidate : String} {first second : Nat}
    (left : Scores unknown candidate first) (right : Scores unknown candidate second)
    : first = second :=
  Nat.le_antisymm (left.least second right.near) (right.least first left.near)

/-- One more name that is not nearer than the chosen one does not change the choice. -/
theorem FirstClosest.insert {middle : List String} {extra : String}
    (first : FirstClosest unknown before chosen (middle ++ after) score)
    (farther : ∀ other, Scores unknown extra other → score ≤ other)
    : FirstClosest unknown before chosen (middle ++ extra :: after) score := by
  refine { first with later := fun candidate member other scores => ?_ }
  rcases List.mem_append.mp member with inside | member
  · exact first.later candidate (List.mem_append_left after inside) other scores
  · rcases List.mem_cons.mp member with rfl | inside
    · exact farther other scores
    · exact first.later candidate (List.mem_append_right middle inside) other scores

/-- Of two different places in a list of names, the later one does not hold the first closest
name.
-/
theorem FirstClosest.not_later {between others : List String} {other : String} {least : Nat}
    (first : FirstClosest unknown before chosen (between ++ other :: after) score)
    : ¬ FirstClosest unknown (before ++ chosen :: between) other others least := by
  intro second
  have less := second.earlier chosen (by simp) score first.scores
  have most := first.later other (by simp) least second.scores
  omega

/-- There is one first closest name among some names, by cases on which of two places comes first.
-/
theorem FirstClosest.unique {others more : List String} {other : String} {least : Nat}
    (first : FirstClosest unknown before chosen after score)
    (second : FirstClosest unknown others other more least)
    (same : before ++ chosen :: after = others ++ other :: more)
    : chosen = other := by
  rcases List.append_eq_append_iff.mp same with ⟨between, longer, rest⟩ | ⟨between, longer, rest⟩
  · cases between with
    | nil => exact (List.cons.inj rest).1
    | cons head between =>
        obtain ⟨rfl, rfl⟩ := List.cons.inj rest
        exact absurd (longer ▸ second) first.not_later
  · cases between with
    | nil => exact (List.cons.inj rest).1.symm
    | cons head between =>
        obtain ⟨rfl, rfl⟩ := List.cons.inj rest
        exact absurd (longer ▸ first) second.not_later

-----------------------------------------------------------------------------------------
-- The search
-----------------------------------------------------------------------------------------

/-- What is kept of the names that were searched: nothing if none of them is acceptable, and
otherwise the first closest one with its score.
-/
inductive Found (unknown : String) (searched : List String) : Option (String × Nat) → Prop
  | nothing (refused : ∀ candidate ∈ searched, ¬ Acceptable unknown candidate)
    : Found unknown searched none
  | closest (before : List String) (chosen : String) (after : List String) {score : Nat}
    (parts : searched = before ++ chosen :: after)
    (first : FirstClosest unknown before chosen after score)
    : Found unknown searched (some (chosen, score))

/-- A name that is not acceptable is passed over. -/
theorem better_of_refused {candidate : String} (refused : ¬ Acceptable unknown candidate)
    (best : Option (String × Nat))
    : better unknown best candidate = best := by
  unfold better
  rw [score?_eq_none_iff.mpr refused]

/-- One more name is searched, by cases on whether it is acceptable and on what was found before. -/
theorem Found.step {best : Option (String × Nat)} (found : Found unknown known best)
    (candidate : String)
    : Found unknown (known ++ [candidate]) (better unknown best candidate) := by
  by_cases accepted : Acceptable unknown candidate
  · obtain ⟨number, scores⟩ := acceptable_iff.mp accepted
    unfold better
    rw [score?_eq_some_iff.mpr scores]
    cases found with
    | nothing refused =>
        refine .closest known candidate [] rfl ⟨scores, fun other member least near => ?_, by simp⟩
        exact absurd (acceptable_iff.mpr ⟨least, near⟩) (refused other member)
    | @closest before chosen after score parts first =>
        simp only
        split
        · next less =>
            refine .closest known candidate [] rfl
              ⟨scores, fun other member least near => ?_, by simp⟩
            rw [parts, List.mem_append, List.mem_cons] at member
            rcases member with earlier | rfl | later
            · exact less.trans (first.earlier other earlier least near)
            · exact near.unique first.scores ▸ less
            · exact less.trans_le (first.later other later least near)
        · next most =>
            refine .closest before chosen (after ++ [candidate]) (by simp [parts]) ?_
            rw [← List.append_nil after] at first
            refine first.insert fun other near => ?_
            rw [near.unique scores]
            exact Nat.le_of_not_lt most
  · rw [better_of_refused accepted]
    cases found with
    | nothing refused =>
        refine .nothing fun other member => ?_
        rcases List.mem_append.mp member with earlier | last
        · exact refused other earlier
        · exact List.mem_singleton.mp last ▸ accepted
    | closest before chosen after parts first =>
        refine .closest before chosen (after ++ [candidate]) (by simp [parts]) ?_
        rw [← List.append_nil after] at first
        exact first.insert fun other near => absurd (acceptable_iff.mpr ⟨other, near⟩) accepted

/-- All names are searched, by induction on them from the last one. -/
theorem found_foldl_better (unknown : String) (known : List String)
    : Found unknown known (known.foldl (better unknown) none) := by
  induction known using List.reverseRecOn with
  | nil => exact .nothing fun candidate member => absurd member List.not_mem_nil
  | append_singleton known candidate ih =>
      rw [List.foldl_append, List.foldl_cons, List.foldl_nil]
      exact ih.step candidate

-----------------------------------------------------------------------------------------
-- The suggestion
-----------------------------------------------------------------------------------------

theorem closest?_eq_some_iff
    : closest? unknown known = some chosen
      ↔ ∃ before after score,
          known = before ++ chosen :: after
          ∧ FirstClosest (Name.dropLeadingDots unknown) before chosen after score := by
  have found := found_foldl_better (Name.dropLeadingDots unknown) known
  rw [closest?]
  generalize known.foldl (better (Name.dropLeadingDots unknown)) none = best at found
  cases found with
  | nothing refused =>
      simp only [Option.map_none, reduceCtorEq, false_iff]
      rintro ⟨before, after, score, rfl, first⟩
      exact refused chosen (by simp) (acceptable_iff.mpr ⟨score, first.scores⟩)
  | closest before other after parts first =>
      simp only [Option.map_some, Option.some.injEq]
      constructor
      · rintro rfl
        exact ⟨before, after, _, parts, first⟩
      · rintro ⟨_, _, _, same, second⟩
        exact first.unique second (parts.symm.trans same)

theorem closest?_eq_none_iff
    : closest? unknown known = none
      ↔ ∀ candidate ∈ known, ¬ Acceptable (Name.dropLeadingDots unknown) candidate := by
  have found := found_foldl_better (Name.dropLeadingDots unknown) known
  rw [closest?]
  generalize known.foldl (better (Name.dropLeadingDots unknown)) none = best at found
  cases found with
  | nothing refused => simpa using refused
  | closest before other after parts first =>
      simp only [Option.map_some, reduceCtorEq, false_iff, not_forall, not_not]
      exact ⟨other, by simp [parts], acceptable_iff.mpr ⟨_, first.scores⟩⟩

/-- Which hint is given for a name, apart from its leading dots. There is none exactly if no known
name is acceptable; otherwise it suggests the first of the acceptable names with the least score.
A name that is not acceptable makes no difference, wherever it stands, and neither does one that
comes after the suggested name and has no lesser score.
-/
theorem hint_suggests_first_closest (unknown : String) (known : List String)
    : (hint? unknown known = none
        ↔ ∀ candidate ∈ known, ¬ Acceptable (Name.dropLeadingDots unknown) candidate)
      ∧ (∀ line,
          hint? unknown known = some line
          ↔ ∃ before chosen after score,
              known = before ++ chosen :: after
              ∧ FirstClosest (Name.dropLeadingDots unknown) before chosen after score
              ∧ line = "did you mean `" ++ chosen ++ "`?")
      ∧ (∀ before after extra,
          known = before ++ after
          → ¬ Acceptable (Name.dropLeadingDots unknown) extra
          → hint? unknown (before ++ extra :: after) = hint? unknown known)
      ∧ ∀ before chosen middle after score extra,
          known = before ++ chosen :: (middle ++ after)
          → FirstClosest (Name.dropLeadingDots unknown) before chosen (middle ++ after) score
          → (∀ other, Scores (Name.dropLeadingDots unknown) extra other → score ≤ other)
          → hint? unknown (before ++ chosen :: (middle ++ extra :: after))
            = hint? unknown known := by
  refine ⟨?none, ?some, ?refused, ?farther⟩
  case none => rw [hint?, Option.map_eq_none_iff, closest?_eq_none_iff]
  case some =>
    intro line
    simp only [hint?, Option.map_eq_some_iff, closest?_eq_some_iff]
    constructor
    · rintro ⟨chosen, ⟨before, after, score, parts, first⟩, rfl⟩
      exact ⟨before, chosen, after, score, parts, first, rfl⟩
    · rintro ⟨before, chosen, after, score, parts, first, rfl⟩
      exact ⟨chosen, ⟨before, after, score, parts, first⟩, rfl⟩
  case refused =>
    rintro before after extra rfl refused
    rw [hint?, hint?, closest?, closest?, List.foldl_append, List.foldl_cons,
      better_of_refused refused, List.foldl_append]
  case farther =>
    rintro before chosen middle after score extra rfl first farther
    have shorter := closest?_eq_some_iff.mpr ⟨before, _, score, rfl, first⟩
    have longer := closest?_eq_some_iff.mpr ⟨before, _, score, rfl, first.insert farther⟩
    rw [hint?, hint?, shorter, longer]

/-- Of two names that are equally near, the first is suggested. -/
example
    : hint? ".shop.Ordr" ["shop.Item", "shop.Order", "shop.Ord"]
      = some "did you mean `shop.Order`?" := by
  decide +kernel

end ProtoSchema.Schema.Suggestion
