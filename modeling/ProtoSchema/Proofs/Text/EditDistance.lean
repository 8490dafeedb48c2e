import Mathlib.Data.List.Induction
import Mathlib.Order.MinMax
import ProtoSchema.Text.EditDistance

/-! The edit distance row by row. The recurrence goes through both texts from their heads, while a
row of the table is about beginnings of them, read from their ends; so the two are brought together
by the edits themselves, which can be read in both directions.
-/

namespace ProtoSchema.Text

variable {α : Type} {source target others more : List α} {cost further : Nat}

-----------------------------------------------------------------------------------------
-- Edits
-----------------------------------------------------------------------------------------

/-- The source can be turned into the target by deletions, insertions and substitutions at this
total cost.
-/
inductive Edits : List α → List α → Nat → Prop
  | nil : Edits [] [] 0
  | delete {a : α} {source target : List α} {cost : Nat} (rest : Edits source target cost)
    : Edits (a :: source) target (cost + 1)
  | insert {b : α} {source target : List α} {cost : Nat} (rest : Edits source target cost)
    : Edits source (b :: target) (cost + 1)
  | keep {a : α} {source target : List α} {cost : Nat} (rest : Edits source target cost)
    : Edits (a :: source) (a :: target) cost
  | substitute {a b : α} {source target : List α} {cost : Nat} (rest : Edits source target cost)
    : Edits (a :: source) (b :: target) (cost + 1)

/-- Edits of parts are edits of the whole, by induction on those of the first part. -/
theorem Edits.append (first : Edits source target cost) (second : Edits others more further)
    : Edits (source ++ others) (target ++ more) (cost + further) := by
  induction first with
  | nil => simpa using second
  | delete _ ih => simpa [Nat.add_right_comm] using ih.delete
  | insert _ ih => simpa [Nat.add_right_comm] using ih.insert
  | keep _ ih => exact ih.keep
  | substitute _ ih => simpa [Nat.add_right_comm] using ih.substitute

/-- Edits can be read backwards, by induction on them. -/
theorem Edits.reverse (edits : Edits source target cost)
    : Edits source.reverse target.reverse cost := by
  induction edits with
  | nil => exact .nil
  | delete _ ih => simpa using ih.append (.delete .nil)
  | insert _ ih => simpa using ih.append (.insert .nil)
  | keep _ ih => simpa using ih.append (.keep .nil)
  | substitute _ ih => simpa using ih.append (.substitute .nil)

variable [DecidableEq α]

-----------------------------------------------------------------------------------------
-- The recurrence
-----------------------------------------------------------------------------------------

@[simp] theorem editDistance_nil_left (target : List α)
    : editDistance [] target = target.length := by
  rw [editDistance]

@[simp] theorem editDistance_nil_right (source : List α)
    : editDistance source [] = source.length := by
  cases source with
  | nil => rw [editDistance]
  | cons a source => rw [editDistance]; simp

theorem editDistance_cons_cons (a b : α) (source target : List α)
    : editDistance (a :: source) (b :: target)
      = min (editDistance source target + if a = b then 0 else 1)
          (min (editDistance source (b :: target) + 1)
            (editDistance (a :: source) target + 1)) := by
  rw [editDistance]

theorem editDistance_delete_le (a : α) (source target : List α)
    : editDistance (a :: source) target ≤ editDistance source target + 1 := by
  cases target with
  | nil => simp
  | cons b target => rw [editDistance_cons_cons]; omega

theorem editDistance_insert_le (b : α) (source target : List α)
    : editDistance source (b :: target) ≤ editDistance source target + 1 := by
  cases source with
  | nil => simp
  | cons a source => rw [editDistance_cons_cons]; omega

/-- No edits cost less than the edit distance, by induction on the edits. -/
theorem Edits.editDistance_le (edits : Edits source target cost)
    : editDistance source target ≤ cost := by
  induction edits with
  | nil => simp
  | @delete a source target _ _ ih =>
      have step := editDistance_delete_le a source target
      omega
  | @insert b source target _ _ ih =>
      have step := editDistance_insert_le b source target
      omega
  | keep _ ih => rw [editDistance_cons_cons, if_pos rfl]; omega
  | substitute _ ih => rw [editDistance_cons_cons]; split <;> omega

/-- Some edits cost as much as the edit distance, by induction along the recurrence. -/
theorem edits_editDistance (source target : List α)
    : Edits source target (editDistance source target) := by
  induction source generalizing target with
  | nil =>
      rw [editDistance_nil_left]
      induction target with
      | nil => exact .nil
      | cons b target ih => exact ih.insert
  | cons a source outer =>
      induction target with
      | nil => simpa using (outer []).delete
      | cons b target inner =>
          rw [editDistance_cons_cons]
          have kept : Edits (a :: source) (b :: target)
              (editDistance source target + if a = b then 0 else 1) := by
            split
            · next same => exact same ▸ (outer target).keep
            · exact (outer target).substitute
          rcases min_choice (editDistance source target + if a = b then 0 else 1)
            (min (editDistance source (b :: target) + 1) (editDistance (a :: source) target + 1))
            with first | first
          · rwa [first]
          · rw [first]
            rcases min_choice (editDistance source (b :: target) + 1)
              (editDistance (a :: source) target + 1) with second | second
            · rw [second]
              exact (outer (b :: target)).delete
            · rw [second]
              exact inner.insert

/-- The edit distance is the same read backwards. -/
theorem editDistance_reverse (source target : List α)
    : editDistance source.reverse target.reverse = editDistance source target := by
  refine Nat.le_antisymm (edits_editDistance source target).reverse.editDistance_le ?_
  have back := (edits_editDistance source.reverse target.reverse).reverse.editDistance_le
  simpa using back

/-- The recurrence also goes from the ends of both texts. -/
theorem editDistance_concat_concat (a b : α) (source target : List α)
    : editDistance (source ++ [a]) (target ++ [b])
      = min (min (editDistance source target + if a = b then 0 else 1)
            (editDistance source (target ++ [b]) + 1))
          (editDistance (source ++ [a]) target + 1) := by
  rw [← editDistance_reverse (source ++ [a]), ← editDistance_reverse source target,
    ← editDistance_reverse source, ← editDistance_reverse (source ++ [a]) target,
    List.reverse_concat, List.reverse_concat, editDistance_cons_cons, min_assoc]

-----------------------------------------------------------------------------------------
-- Loops over items with their places
-----------------------------------------------------------------------------------------

/-- A loop over items with their places runs to its end if each step can be made where the invariant
holds for the items before it, and then the invariant holds for all of them; by induction on the
items that are left.
-/
theorem foldlM_zipIdx_eq_some {β γ : Type} {step : γ → β × Nat → Option γ} {items : List β}
    (invariant : List β → γ → Prop)
    (steps
      : ∀ {seen item rest state},
          items = seen ++ item :: rest
          → invariant seen state
          → ∃ next, step state (item, seen.length) = some next ∧ invariant (seen ++ [item]) next)
    {first : γ} (start : invariant [] first)
    : ∃ last, items.zipIdx.foldlM step first = some last ∧ invariant items last := by
  have runs (rest : List β)
      : ∀ {seen state},
          items = seen ++ rest
          → invariant seen state
          → ∃ last,
              (rest.zipIdx seen.length).foldlM step state = some last ∧ invariant items last := by
    induction rest with
    | nil =>
        intro seen state parts holds
        rw [List.append_nil] at parts
        exact ⟨state, rfl, parts ▸ holds⟩
    | cons item rest ih =>
        intro seen state parts holds
        obtain ⟨next, made, kept⟩ := steps parts holds
        obtain ⟨last, run, complete⟩ := ih (parts.trans (List.append_cons seen item rest)) kept
        rw [List.length_append, List.length_singleton] at run
        refine ⟨last, ?_, complete⟩
        rw [List.zipIdx_cons, List.foldlM_cons, made, Option.bind_eq_bind, Option.bind_some, run]
  exact runs items (List.nil_append items).symm start

-----------------------------------------------------------------------------------------
-- Rows of the table
-----------------------------------------------------------------------------------------

variable {row : Array Nat} {count : Nat} {rows : Rows}

/-- A row for a source has a cell for each beginning of the target. The cells before `count` hold
the edit distances of the source from these beginnings; the others may hold anything.
-/
structure Filled (count : Nat) (source target : List α) (row : Array Nat) : Prop where
  width : row.size = target.length + 1
  cell : ∀ place < count, row[place]? = some (editDistance source (target.take place))

/-- The first row counts insertions. -/
theorem filled_range (target : List α)
    : Filled (target.length + 1) ([] : List α) target (.range (target.length + 1)) where
  width := Array.size_range
  cell place inside := by
    have shorter : min place target.length = place := by omega
    rw [Array.getElem?_range, if_pos inside, editDistance_nil_left, List.length_take, shorter]

/-- A row that was filled for one source can be filled anew for another. -/
theorem Filled.discard (filled : Filled count source target row) (others : List α)
    : Filled 0 others target row :=
  ⟨filled.width, nofun⟩

/-- The first cell that is not filled yet can be written, and the cells before it stay as they are.
-/
theorem Filled.write (filled : Filled count source target row)
    (inside : count ≤ target.length)
    : ∃ next,
        write? row count (editDistance source (target.take count)) = some next
        ∧ Filled (count + 1) source target next := by
  have room : count < row.size := by rw [filled.width]; omega
  refine ⟨_, dif_pos room, ?_, fun place before => ?_⟩
  · rw [Array.size_set, filled.width]
  · rw [Array.getElem?_set]
    split
    · next same => rw [same]
    · exact filled.cell place (by omega)

/-- The row for a beginning of the source is filled, and the row for the next beginning is filled
before `count`.
-/
structure Rows.Filling (count : Nat) (source next target : List α) (rows : Rows) : Prop where
  previous : Filled (target.length + 1) source target rows.previous
  current : Filled count next target rows.current

/-- One cell is filled, and all cells around it are inside their rows. -/
theorem Rows.Filling.fillCell {a b : α} {seen rest : List α}
    (filled : rows.Filling (seen.length + 1) source (source ++ [a]) (seen ++ b :: rest))
    : ∃ next,
        Text.fillCell a rows (b, seen.length) = some next
        ∧ next.Filling ((seen ++ [b]).length + 1) source (source ++ [a]) (seen ++ b :: rest) := by
  have width : (seen ++ b :: rest).length = seen.length + (rest.length + 1) := by
    rw [List.length_append, List.length_cons]
  have further : (seen ++ [b]).length = seen.length + 1 := by
    rw [List.length_append, List.length_singleton]
  have longer : (seen ++ b :: rest).take (seen.length + 1) = seen ++ [b] := by
    rw [List.append_cons, List.take_left' further]
  have diagonal := filled.previous.cell seen.length (by omega)
  have above := filled.previous.cell (seen.length + 1) (by omega)
  have left := filled.current.cell seen.length (by omega)
  obtain ⟨next, written, filledTo⟩ := filled.current.write (by omega)
  rw [List.take_left] at diagonal left
  -- The value that is written is the recurrence read from the ends of what was seen.
  rw [longer] at above written
  rw [editDistance_concat_concat] at written
  refine ⟨{ rows with current := next }, ?_, filled.previous, further ▸ filledTo⟩
  simp only [Text.fillCell, diagonal, above, left, written, Option.bind_eq_bind, Option.bind_some,
    Option.pure_def]

/-- The current row is filled along the target. -/
theorem Rows.Filling.fillCells {a : α} (filled : rows.Filling 1 source (source ++ [a]) target)
    : ∃ next,
        target.zipIdx.foldlM (Text.fillCell a) rows = some next
        ∧ next.Filling (target.length + 1) source (source ++ [a]) target := by
  refine foldlM_zipIdx_eq_some
    (fun seen (state : Rows) => state.Filling (seen.length + 1) source (source ++ [a]) target)
    (fun parts holds => ?_) filled
  subst parts
  exact holds.fillCell

/-- A row is filled for one more character of the source. After the exchange it is the previous row,
and the one before it is left to be filled anew.
-/
theorem Rows.Filling.fillRow (filled : rows.Filling 0 source others target) (a : α)
    : ∃ next,
        Text.fillRow target rows (a, source.length) = some next
        ∧ next.Filling 0 (source ++ [a]) [] target := by
  obtain ⟨first, written, started⟩ :=
    (filled.current.discard (source ++ [a])).write (Nat.zero_le target.length)
  rw [List.take_zero, editDistance_nil_right, List.length_append, List.length_singleton] at written
  have opened : Rows.Filling 1 source (source ++ [a]) target { rows with current := first } :=
    ⟨filled.previous, started⟩
  obtain ⟨last, run, complete⟩ := opened.fillCells
  refine ⟨⟨last.current, last.previous⟩, ?_, complete.current, complete.previous.discard []⟩
  simp only [Text.fillRow, written, run, Option.bind_eq_bind, Option.bind_some, Option.pure_def]

/-- The rows are filled along the source. -/
theorem Rows.Filling.fillRows (filled : rows.Filling 0 [] [] target) (source : List α)
    : ∃ next,
        source.zipIdx.foldlM (Text.fillRow target) rows = some next
        ∧ next.Filling 0 source [] target :=
  foldlM_zipIdx_eq_some (fun seen (state : Rows) => state.Filling 0 seen [] target)
    (fun _ holds => holds.fillRow _) filled

/-- The table can be filled, and its last cell is the edit distance. -/
theorem rowDistance?_eq_some (source target : List α)
    : rowDistance? source target = some (editDistance source target) := by
  cases source with
  | nil => simp [rowDistance?]
  | cons a source =>
      have start
          : Rows.Filling 0 [] [] target
              ⟨.range (target.length + 1), .replicate (target.length + 1) 0⟩ :=
        ⟨filled_range target, Array.size_replicate, nofun⟩
      obtain ⟨last, run, complete⟩ := start.fillRows (a :: source)
      have corner := complete.previous.cell target.length (by omega)
      rw [List.take_length] at corner
      simp only [rowDistance?, List.isEmpty_cons, Bool.false_eq_true, if_false, run,
        Option.bind_eq_bind, Option.bind_some]
      exact corner

end ProtoSchema.Text
