/-! The edit distance of two texts is the least number of insertions, deletions and
substitutions that turn one into the other. `editDistance` is its recurrence over the heads of
both texts; `rowDistance?` fills its table row by row and keeps two rows at a time.
-/

namespace ProtoSchema.Text

/-- The recurrence of the edit distance: at each step the head of a text is deleted, inserted
or substituted, the last at no cost when both heads are equal.
-/
def editDistance {α : Type} [DecidableEq α] : List α → List α → Nat
  | [], target => target.length
  | source, [] => source.length
  | a :: source, b :: target =>
      min (editDistance source target + if a = b then 0 else 1)
        (min (editDistance source (b :: target) + 1)
          (editDistance (a :: source) target + 1))
termination_by source target => source.length + target.length

/-- Two rows of the table: the one that was filled last, and the one that is being filled, which
holds cells of an older row where it is not filled yet.
-/
structure Rows where
  previous : Array Nat
  current : Array Nat
deriving DecidableEq, Repr

/-- Writes a cell of a row; fails outside the row. -/
def write? (row : Array Nat) (place value : Nat) : Option (Array Nat) :=
  if inside : place < row.size then some (row.set place value) else none

/-- Fills the cell after `place` of the current row, from the cells above it and to its left. Fails
where one of them is outside its row.
-/
def fillCell {α : Type} [DecidableEq α] (a : α) (rows : Rows) : α × Nat → Option Rows
  | (b, place) => do
      let diagonal ← rows.previous[place]?
      let above ← rows.previous[place + 1]?
      let left ← rows.current[place]?
      let value := min (min (diagonal + if a = b then 0 else 1) (above + 1)) (left + 1)
      let current ← write? rows.current (place + 1) value
      pure { rows with current }

/-- Fills the current row for one more character of the source, and exchanges the rows. -/
def fillRow {α : Type} [DecidableEq α] (target : List α) (rows : Rows)
    : α × Nat → Option Rows
  | (a, place) => do
      let current ← write? rows.current 0 (place + 1)
      let filled ← target.zipIdx.foldlM (fillCell a) { rows with current }
      pure { previous := filled.current, current := filled.previous }

/-- The last cell of the table, whose first row counts the insertions of the target. Fails where a
cell is read or written outside its row.
-/
def rowDistance? {α : Type} [DecidableEq α] (source target : List α) : Option Nat :=
  if source.isEmpty then some target.length
  else do
    let filled ← source.zipIdx.foldlM (fillRow target)
      { previous := .range (target.length + 1), current := .replicate (target.length + 1) 0 }
    filled.previous[target.length]?

end ProtoSchema.Text
