import Mathlib.Data.List.Chain
import Mathlib.Data.List.Pairwise
import ProtoSchema.Proofs.Text.Trimming
import ProtoSchema.Text.Lines

/-! The lines of a text. They hold its visible characters, each is a piece of the text without line
ends, and joining lines and splitting them again gives the same lines.
-/

namespace ProtoSchema.Text

variable {text : List Char}

-----------------------------------------------------------------------------------------
-- Splitting
-----------------------------------------------------------------------------------------

theorem lines_nil : lines [] = [] :=
  rfl

theorem lines_newline (rest : List Char) : lines ('\n' :: rest) = [] :: lines rest :=
  rfl

theorem lines_carriage (rest : List Char) : lines ('\r' :: '\n' :: rest) = [] :: lines rest :=
  rfl

/-- A character that no line ends at goes to the first line of the rest. -/
theorem lines_cons {c : Char} {rest : List Char} (other : c ≠ '\n')
    (plain : c = '\r' → rest.head? ≠ some '\n')
    : lines (c :: rest) = (c :: (lines rest).headD []) :: (lines rest).tail := by
  rw [lines.eq_4 c rest other fun following same more => plain same (by rw [more]; rfl)]
  cases lines rest <;> rfl

theorem lines_eq_nil_iff : lines text = [] ↔ text = [] := by
  refine ⟨fun nothing => ?_, fun nothing => by rw [nothing, lines_nil]⟩
  unfold lines at nothing
  split at nothing
  · rfl
  · cases nothing
  · cases nothing
  · split at nothing <;> cases nothing

theorem ne_nil_of_lines_eq_cons {line : List Char} {following : List (List Char)}
    (split : lines text = line :: following)
    : text ≠ [] := by
  rw [ne_eq, ← lines_eq_nil_iff, split]
  exact List.cons_ne_nil line following

/-- Induction along the lines of a text: it ends, a line ends, or a character comes before the rest
of its line. With a character the lines that it leads to are given as well.
-/
theorem lines_induction {motive : List Char → Prop} (nil : motive [])
    (newline : ∀ rest, motive rest → motive ('\n' :: rest))
    (carriage : ∀ rest, motive rest → motive ('\r' :: '\n' :: rest))
    (last : ∀ c, c ≠ '\n' → lines [c] = [[c]] → motive [c])
    (other
      : ∀ c rest line following,
          c ≠ '\n'
          → (c = '\r' → rest.head? ≠ some '\n')
          → lines rest = line :: following
          → lines (c :: rest) = (c :: line) :: following
          → motive rest
          → motive (c :: rest))
    (text : List Char)
    : motive text := by
  induction text using lines.induct with
  | case1 => exact nil
  | case2 rest ih => exact newline rest ih
  | case3 rest ih => exact carriage rest ih
  | case4 c rest noNewline plain nothing ih =>
      cases lines_eq_nil_iff.mp nothing
      exact last c noNewline (lines_cons noNewline fun _ => nofun)
  | case5 c rest noNewline plain line following split ih =>
      have noReturn : c = '\r' → rest.head? ≠ some '\n' := fun same head => by
        obtain ⟨more, rfl⟩ := List.head?_eq_some_iff.mp head
        exact plain more same rfl
      refine other c rest line following noNewline noReturn split ?_ ih
      rw [lines_cons noNewline noReturn, split]
      rfl

/-- A line ends at the first newline, by induction on the line. -/
theorem lines_append_newline {line : List Char} (inside : '\n' ∉ line)
    (plain : line.getLast? ≠ some '\r') (rest : List Char)
    : lines (line ++ '\n' :: rest) = line :: lines rest := by
  induction line with
  | nil => rfl
  | cons c line ih =>
      obtain ⟨other, inside⟩ := not_or.mp (mt List.mem_cons.mpr inside)
      cases line with
      | nil =>
          have noReturn : c ≠ '\r' := fun same => plain (same ▸ rfl)
          rw [List.singleton_append, lines_cons (Ne.symm other) fun same => absurd same noReturn,
            lines_newline]
          rfl
      | cons next line =>
          have following : next ≠ '\n' := fun same => inside (same ▸ List.mem_cons_self)
          rw [List.getLast?_cons_cons] at plain
          rw [List.cons_append, lines_cons (Ne.symm other) fun _ => by simpa using following,
            ih inside plain]
          rfl

theorem lines_eq_singleton {line : List Char} (inside : '\n' ∉ line) (nonempty : line ≠ [])
    : lines line = [line] := by
  induction line with
  | nil => exact absurd rfl nonempty
  | cons c line ih =>
      obtain ⟨other, inside⟩ := not_or.mp (mt List.mem_cons.mpr inside)
      have plain : line.head? ≠ some '\n' := fun head =>
        inside (List.mem_of_mem_head? head)
      rw [lines_cons (Ne.symm other) fun _ => plain]
      cases line with
      | nil => rfl
      | cons next line => rw [ih inside (List.cons_ne_nil _ _)]; rfl

theorem newline_notMem_of_mem_lines {line : List Char} (member : line ∈ lines text)
    : '\n' ∉ line := by
  induction text using lines_induction generalizing line with
  | nil => cases member
  | newline rest ih | carriage rest ih =>
      rcases List.mem_cons.mp member with rfl | member
      · exact List.not_mem_nil
      · exact ih member
  | last c newline single =>
      rw [single, List.mem_singleton] at member
      rw [member, List.mem_singleton]
      exact fun same => newline same.symm
  | other c rest first following newline _ more split ih =>
      rw [split] at member
      rcases List.mem_cons.mp member with rfl | member
      · rw [List.mem_cons, not_or]
        exact ⟨fun same => newline same.symm, ih (more ▸ List.mem_cons_self)⟩
      · exact ih (more ▸ List.mem_cons_of_mem _ member)

theorem isPrefix_of_lines_eq_cons {line : List Char} {following : List (List Char)}
    (found : lines text = line :: following)
    : line <+: text := by
  induction text using lines_induction generalizing line following with
  | nil => cases found
  | newline rest | carriage rest =>
      cases found
      exact List.nil_prefix
  | last c _ single =>
      cases single.symm.trans found
      exact List.prefix_rfl
  | other c rest first others _ _ more split ih =>
      cases split.symm.trans found
      exact List.cons_prefix_cons.mpr ⟨rfl, ih more⟩

theorem isInfix_of_mem_lines {line : List Char} (member : line ∈ lines text) : line <:+: text := by
  induction text using lines_induction generalizing line with
  | nil => cases member
  | newline rest ih =>
      rcases List.mem_cons.mp member with rfl | member
      · exact List.nil_infix
      · exact List.infix_cons (ih member)
  | carriage rest ih =>
      rcases List.mem_cons.mp member with rfl | member
      · exact List.nil_infix
      · exact List.infix_cons (List.infix_cons (ih member))
  | last c _ single =>
      rw [single, List.mem_singleton] at member
      exact member ▸ List.infix_rfl
  | other c rest first following _ _ more split ih =>
      rw [split] at member
      rcases List.mem_cons.mp member with rfl | member
      · exact (isPrefix_of_lines_eq_cons split).isInfix
      · exact List.infix_cons (ih (more ▸ List.mem_cons_of_mem _ member))

/-- Line ends are blank, so lines hold all visible characters. -/
theorem visible_lines (text : List Char) : (lines text).flatMap visible = visible text := by
  induction text using lines_induction with
  | nil => rfl
  | newline rest ih =>
      rw [lines_newline, List.flatMap_cons, ih, visible_cons, visible_newline, visible_nil]
  | carriage rest ih =>
      have ending : visible ['\r', '\n'] = [] := by decide
      rw [lines_carriage, List.flatMap_cons, ih, visible_nil, ← ending, ← visible_append]
      rfl
  | last c _ single => rw [single, List.flatMap_singleton]
  | other c rest first following _ _ more split ih =>
      rw [more, List.flatMap_cons] at ih
      rw [split, List.flatMap_cons, visible_cons, List.append_assoc, ih, ← visible_cons]

/-- The first line starts as the text does, unless that is with a line end. -/
theorem lines_eq_cons {c : Char} (visibly : isBlank c = false) (rest : List Char)
    : ∃ line following, lines (c :: rest) = (c :: line) :: following := by
  have newline : c ≠ '\n' := by rintro rfl; revert visibly; decide
  have plain : c ≠ '\r' := by rintro rfl; revert visibly; decide
  exact ⟨_, _, lines_cons newline fun same => absurd same plain⟩

/-- The last line ends as the text does, unless that is with a line end. -/
theorem lines_eq_append {c : Char} (other : c ≠ '\n') (text : List Char)
    : ∃ front line, lines (text ++ [c]) = front ++ [line ++ [c]] := by
  have single : lines [c] = [[c]] :=
    lines_eq_singleton (by simpa using other.symm) (List.cons_ne_nil _ _)
  induction text using lines_induction with
  | nil => exact ⟨[], [], single⟩
  | newline rest ih | carriage rest ih =>
      obtain ⟨front, line, split⟩ := ih
      exact ⟨[] :: front, line, by
        simp only [List.cons_append, lines_newline, lines_carriage, split]⟩
  | last first newline _ =>
      have two : lines [first, c] = [[first, c]] := by
        have plain : [c].head? ≠ some '\n' := by simpa using other
        rw [lines_cons newline fun _ => plain, single]
        rfl
      exact ⟨[], [first], two⟩
  | other first rest _ _ newline plain more _ ih =>
      obtain ⟨front, line, split⟩ := ih
      have nonempty := ne_nil_of_lines_eq_cons more
      have step : lines (first :: (rest ++ [c]))
          = (first :: (lines (rest ++ [c])).headD []) :: (lines (rest ++ [c])).tail := by
        refine lines_cons newline fun same => ?_
        rw [List.head?_append_of_ne_nil _ nonempty]
        exact plain same
      rw [List.cons_append, step, split]
      cases front with
      | nil => exact ⟨[], first :: line, rfl⟩
      | cons head front => exact ⟨(first :: head) :: front, line, rfl⟩

/-- The last line of a text that ends visibly is not blank. -/
theorem visible_last_ne_nil (ends : EndsVisible text) {line : List Char}
    (last : (lines text).getLast? = some line)
    : visible line ≠ [] := by
  rcases List.eq_nil_or_concat text with rfl | ⟨front, c, rfl⟩
  · cases last
  · rw [List.concat_eq_append] at last ends
    have visibly := ends c List.getLast?_concat
    have other : c ≠ '\n' := fun same => ends.ne_newline (by rw [same, List.getLast?_concat])
    obtain ⟨before, start, split⟩ := lines_eq_append other front
    rw [split, List.getLast?_concat] at last
    rw [← Option.some.inj last, visible_append]
    simp [visible, visibly]

-----------------------------------------------------------------------------------------
-- Joining
-----------------------------------------------------------------------------------------

theorem joinLines_cons_cons (first second : List Char) (rest : List (List Char))
    : joinLines (first :: second :: rest) = first ++ '\n' :: joinLines (second :: rest) := by
  rw [joinLines, List.intercalate_cons_cons, List.append_assoc, List.singleton_append]
  rfl

theorem joinLines_cons_of_ne_nil (first : List Char) {rest : List (List Char)} (more : rest ≠ [])
    : joinLines (first :: rest) = first ++ '\n' :: joinLines rest := by
  obtain ⟨second, rest, rfl⟩ := List.exists_cons_of_ne_nil more
  exact joinLines_cons_cons first second rest

theorem joinLines_singleton (line : List Char) : joinLines [line] = line := by
  simp [joinLines]

theorem joinLines_append_singleton {front : List (List Char)} (before : front ≠ [])
    (last : List Char)
    : joinLines (front ++ [last]) = joinLines front ++ '\n' :: last := by
  induction front with
  | nil => exact absurd rfl before
  | cons first rest ih =>
      rw [List.cons_append, joinLines_cons_of_ne_nil first (by simp)]
      cases rest with
      | nil => rw [List.nil_append, joinLines_singleton, joinLines_singleton]
      | cons second rest =>
          rw [ih (List.cons_ne_nil _ _), joinLines_cons_cons, List.append_assoc, List.cons_append]

/-- Joined lines start visibly if the first one does and is not empty. -/
theorem joinLines_startsVisible {first : List Char} (starts : StartsVisible first)
    (nonempty : first ≠ []) (rest : List (List Char))
    : StartsVisible (joinLines (first :: rest)) := by
  obtain ⟨c, line, rfl⟩ := List.exists_cons_of_ne_nil nonempty
  cases rest with
  | nil => rwa [joinLines_singleton]
  | cons second rest =>
      rw [joinLines_cons_cons]
      exact fun other head => starts other head

/-- Joined lines end visibly if the last one does and is not empty. -/
theorem joinLines_endsVisible {parts : List (List Char)} {line : List Char}
    (last : parts.getLast? = some line) (nonempty : line ≠ []) (ends : EndsVisible line)
    : EndsVisible (joinLines parts) := by
  obtain ⟨front, rfl⟩ := List.getLast?_eq_some_iff.mp last
  cases front with
  | nil => rwa [List.nil_append, joinLines_singleton]
  | cons first front =>
      rw [joinLines_append_singleton (List.cons_ne_nil _ _)]
      intro c final
      rw [List.getLast?_append, List.getLast?_cons_of_ne_nil nonempty,
        List.getLast?_eq_some_getLast nonempty, Option.some_or] at final
      exact ends c (by rw [List.getLast?_eq_some_getLast nonempty, final])

theorem visible_joinLines (parts : List (List Char))
    : visible (joinLines parts) = parts.flatMap visible := by
  induction parts with
  | nil => rfl
  | cons first rest ih =>
      cases rest with
      | nil => rw [joinLines_singleton, List.flatMap_singleton]
      | cons second rest =>
          rw [List.flatMap_cons, joinLines_cons_cons, visible_append, visible_cons, visible_newline,
            ih, List.nil_append]

/-- Joined lines are split where they were joined, if no line end is inside of a line and the last
line is not empty.
-/
theorem lines_joinLines {parts : List (List Char)}
    (inside : ∀ line ∈ parts, '\n' ∉ line ∧ line.getLast? ≠ some '\r')
    (last : parts.getLast? ≠ some [])
    : lines (joinLines parts) = parts := by
  induction parts with
  | nil => rfl
  | cons first rest ih =>
      obtain ⟨newline, plain⟩ := inside first List.mem_cons_self
      cases rest with
      | nil =>
          rw [joinLines_singleton]
          exact lines_eq_singleton newline fun same => last (same ▸ rfl)
      | cons second rest =>
          rw [List.getLast?_cons_cons] at last
          rw [joinLines_cons_cons, lines_append_newline newline plain,
            ih (fun line member => inside line (List.mem_cons_of_mem _ member)) last]

/-- Splitting and joining lines gives a text back whose line ends are newlines between lines. -/
theorem joinLines_lines (plain : '\r' ∉ text) (ending : text.getLast? ≠ some '\n')
    : joinLines (lines text) = text := by
  induction text using lines_induction with
  | nil => rfl
  | newline rest ih =>
      cases rest with
      | nil => exact absurd rfl ending
      | cons c rest =>
          rw [List.getLast?_cons_cons] at ending
          have joined := ih (fun member => plain (List.mem_cons_of_mem _ member)) ending
          have more := mt lines_eq_nil_iff.mp (List.cons_ne_nil c rest)
          rw [lines_newline, joinLines_cons_of_ne_nil [] more, joined, List.nil_append]
  | carriage rest => exact absurd List.mem_cons_self plain
  | last c _ single => rw [single, joinLines_singleton]
  | other c rest line following _ _ more split ih =>
      have nonempty := ne_nil_of_lines_eq_cons more
      have joined := ih (fun member => plain (List.mem_cons_of_mem _ member))
        (by rwa [List.getLast?_cons_of_ne_nil nonempty] at ending)
      rw [more] at joined
      rw [split, ← joined]
      cases following with
      | nil => rw [joinLines_singleton, joinLines_singleton]
      | cons second following => rw [joinLines_cons_cons, joinLines_cons_cons, List.cons_append]

-----------------------------------------------------------------------------------------
-- Lines without blank endings
-----------------------------------------------------------------------------------------

/-- No blank character stands before a newline, except another newline. Every piece of such a text
is like that, too.
-/
def Tidy (text : List Char) : Prop :=
  text.IsChain fun c next => next = '\n' → c = '\n' ∨ isBlank c = false

theorem tidy_of_newline_notMem (inside : '\n' ∉ text) : Tidy text :=
  (List.pairwise_of_forall_mem_list fun _ _ _ found (newline : _ = '\n') =>
    absurd (newline ▸ found) inside).isChain

/-- Joined lines that end visibly are tidy, by induction on the lines. -/
theorem tidy_joinLines {parts : List (List Char)}
    (ends : ∀ line ∈ parts, '\n' ∉ line ∧ EndsVisible line)
    : Tidy (joinLines parts) := by
  induction parts with
  | nil => exact List.isChain_nil
  | cons first rest ih =>
      obtain ⟨newline, visibly⟩ := ends first List.mem_cons_self
      cases rest with
      | nil =>
          rw [joinLines_singleton]
          exact tidy_of_newline_notMem newline
      | cons second rest =>
          have below := ih fun line member => ends line (List.mem_cons_of_mem _ member)
          rw [joinLines_cons_cons, Tidy, List.isChain_append, List.isChain_cons]
          exact ⟨tidy_of_newline_notMem newline, ⟨fun _ _ _ => .inl rfl, below⟩,
            fun c last _ _ _ => .inr (visibly c last)⟩

/-- The lines of a tidy text end visibly if the text does, by induction on the lines. -/
theorem endsVisible_of_tidy {parts : List (List Char)} (inside : ∀ line ∈ parts, '\n' ∉ line)
    (tidy : Tidy (joinLines parts)) (ends : EndsVisible (joinLines parts))
    : ∀ line ∈ parts, EndsVisible line := by
  induction parts with
  | nil => exact fun _ member => by cases member
  | cons first rest ih =>
      cases rest with
      | nil =>
          rw [joinLines_singleton] at ends
          intro line member
          exact List.mem_singleton.mp member ▸ ends
      | cons second rest =>
          rw [joinLines_cons_cons] at tidy ends
          obtain ⟨_, below, between⟩ := List.isChain_append.mp tidy
          have later : EndsVisible (joinLines (second :: rest)) := by
            intro c last
            refine ends c ?_
            rw [List.getLast?_append, List.getLast?_cons, last]
            rfl
          intro line member
          rcases List.mem_cons.mp member with rfl | member
          · intro c last
            refine (between c last '\n' rfl rfl).resolve_left fun newline => ?_
            exact inside line List.mem_cons_self (newline ▸ List.mem_of_getLast? last)
          · exact ih (fun line member => inside line (List.mem_cons_of_mem _ member))
              (List.isChain_cons.mp below).2 later line member

theorem newline_notMem_of_mem_splitOn {line : List Char} (member : line ∈ text.splitOn '\n')
    : '\n' ∉ line := by
  induction text generalizing line with
  | nil =>
      rw [List.mem_singleton.mp member]
      exact List.not_mem_nil
  | cons c rest ih =>
      have step : (c :: rest).splitOn '\n' = if (c == '\n') = true then [] :: rest.splitOn '\n'
          else (rest.splitOn '\n').modifyHead (List.cons c) :=
        List.splitOnP_cons_eq_if_modifyHead ..
      rw [step] at member
      split at member
      · rcases List.mem_cons.mp member with rfl | member
        · exact List.not_mem_nil
        · exact ih member
      · next other =>
          cases split : rest.splitOn '\n' with
          | nil =>
              rw [split] at member
              cases member
          | cons first following =>
              have inside : ∀ line ∈ first :: following, '\n' ∉ line := fun line found =>
                ih (split.symm ▸ found)
              rw [split, List.modifyHead_cons] at member
              rcases List.mem_cons.mp member with rfl | member
              · rw [List.mem_cons, not_or]
                exact ⟨fun same => other (beq_iff_eq.mpr same.symm),
                  inside first List.mem_cons_self⟩
              · exact inside line (List.mem_cons_of_mem _ member)

/-- The lines of a tidy text end visibly if the text does. -/
theorem Tidy.endsVisible (tidy : Tidy text) (ends : EndsVisible text)
    : ∀ line ∈ text.splitOn '\n', EndsVisible line := by
  have joined : joinLines (text.splitOn '\n') = text := List.intercalate_splitOn '\n'
  exact endsVisible_of_tidy (fun _ => newline_notMem_of_mem_splitOn) (by rwa [joined])
    (by rwa [joined])

end ProtoSchema.Text
