import Mathlib.Data.List.Forall2
import Mathlib.Data.List.Induction
import ProtoSchema.Json.Parser

/-! The places of syntax errors. A parser counts the lines of a text whose comments are blanked, and
the offset of an error is found by these lines in the source. It is that of the byte read last
unless the comments hide a line end before another one; it then comes too early.
-/

namespace ProtoSchema.Json

variable {source stripped text : List UInt8}

-----------------------------------------------------------------------------------------
-- Bytes of lines
-----------------------------------------------------------------------------------------

/-- The number of line ends among some bytes. -/
def lineEnds (text : List UInt8) : Nat :=
  text.count '\n'.toUInt8

theorem lineEnds_cons_newline (rest : List UInt8)
    : lineEnds ('\n'.toUInt8 :: rest) = lineEnds rest + 1 :=
  List.count_cons_self

theorem lineEnds_cons_of_ne {byte : UInt8} (other : byte ≠ '\n'.toUInt8) (rest : List UInt8)
    : lineEnds (byte :: rest) = lineEnds rest :=
  List.count_cons_of_ne other

namespace Position

variable {count : Nat}

theorem lineBytes_zero (text : List UInt8) : lineBytes 0 text = 0 := by
  cases text <;> rfl

theorem lineBytes_cons_newline (count : Nat) (rest : List UInt8)
    : lineBytes (count + 1) ('\n'.toUInt8 :: rest) = 1 + lineBytes count rest := by
  rw [lineBytes, if_pos rfl]

theorem lineBytes_cons_of_ne {byte : UInt8} (other : byte ≠ '\n'.toUInt8) (count : Nat)
    (rest : List UInt8)
    : lineBytes (count + 1) (byte :: rest) = 1 + lineBytes (count + 1) rest := by
  rw [lineBytes, if_neg other]

/-- Lines that end are as long in a longer text, by induction on the text. -/
theorem lineBytes_append_of_le (within : count ≤ lineEnds text) (more : List UInt8)
    : lineBytes count (text ++ more) = lineBytes count text := by
  induction text generalizing count with
  | nil =>
      rw [Nat.le_zero.mp within, lineBytes_zero, lineBytes_zero]
  | cons byte rest ih =>
      cases count with
      | zero => rw [lineBytes_zero, lineBytes_zero]
      | succ count =>
          rw [List.cons_append]
          by_cases newline : byte = '\n'.toUInt8
          · subst newline
            rw [lineEnds_cons_newline] at within
            rw [lineBytes_cons_newline, lineBytes_cons_newline, ih (by omega)]
          · rw [lineEnds_cons_of_ne newline] at within
            rw [lineBytes_cons_of_ne newline, lineBytes_cons_of_ne newline, ih within]

/-- A text ends with the line that its last byte is in. -/
theorem lineBytes_concat_newline (text : List UInt8)
    : lineBytes (lineEnds text + 1) (text ++ ['\n'.toUInt8]) = text.length + 1 := by
  induction text with
  | nil => rfl
  | cons byte rest ih =>
      rw [List.cons_append, List.length_cons, Nat.add_comm rest.length 1, Nat.add_assoc, ← ih]
      by_cases newline : byte = '\n'.toUInt8
      · subst newline
        rw [lineEnds_cons_newline, lineBytes_cons_newline]
      · rw [lineEnds_cons_of_ne newline, lineBytes_cons_of_ne newline]

/-- One line more has more bytes, by induction on the text. -/
theorem lineBytes_lt (within : count < lineEnds text)
    : lineBytes count text < lineBytes (count + 1) text := by
  induction text generalizing count with
  | nil => cases within
  | cons byte rest ih =>
      cases count with
      | zero =>
          rw [lineBytes_zero, lineBytes]
          omega
      | succ count =>
          by_cases newline : byte = '\n'.toUInt8
          · subst newline
            rw [lineEnds_cons_newline] at within
            rw [lineBytes_cons_newline, lineBytes_cons_newline]
            exact Nat.add_lt_add_left (ih (by omega)) 1
          · rw [lineEnds_cons_of_ne newline] at within
            rw [lineBytes_cons_of_ne newline, lineBytes_cons_of_ne newline]
            exact Nat.add_lt_add_left (ih within) 1

-----------------------------------------------------------------------------------------
-- The place after some bytes
-----------------------------------------------------------------------------------------

theorem after_concat (text : List UInt8) (byte : UInt8)
    : after (text ++ [byte]) = (after text).next byte := by
  rw [after, List.foldl_append, after]
  rfl

/-- What the place after some bytes says about them. -/
structure Marks (text : List UInt8) (position : Position) : Prop where
  line : position.line = lineEnds text + 1
  column : lineBytes (lineEnds text) text + position.column = text.length
  fresh : position.column = 0 ↔ text = [] ∨ text.getLast? = some '\n'.toUInt8

/-- The place marks the bytes read so far, by induction from the last byte. -/
theorem after_marks (text : List UInt8) : Marks text (after text) := by
  induction text using List.reverseRecOn with
  | nil => exact ⟨rfl, rfl, iff_of_true rfl (.inl rfl)⟩
  | append_singleton text byte ih =>
      have ends : lineEnds (text ++ [byte]) = lineEnds text + lineEnds [byte] :=
        List.count_append
      rw [after_concat, next]
      by_cases newline : byte = '\n'.toUInt8
      · subst newline
        have one : lineEnds ['\n'.toUInt8] = 1 := rfl
        rw [if_pos rfl]
        refine ⟨?_, ?_, iff_of_true rfl (.inr List.getLast?_concat)⟩
        · rw [ends, one, ih.line]
        · rw [ends, one, lineBytes_concat_newline, List.length_append]
          rfl
      · have none : lineEnds [byte] = 0 := lineEnds_cons_of_ne newline []
        rw [if_neg newline]
        refine ⟨?_, ?_, iff_of_false (Nat.succ_ne_zero _) ?_⟩
        · rw [ends, none, ih.line]
        · rw [ends, none, Nat.add_zero, lineBytes_append_of_le (Nat.le_refl _), List.length_append,
            ← ih.column]
          rfl
        · simpa using newline

end Position

-----------------------------------------------------------------------------------------
-- Blanked comments
-----------------------------------------------------------------------------------------

/-- Each byte of the source is kept or blanked. -/
def Blanked (source stripped : List UInt8) : Prop :=
  List.Forall₂ (fun byte kept => kept = byte ∨ kept = ' '.toUInt8) source stripped

theorem Comments.Region.read_eq_byte {region : Region} {byte kept : UInt8}
    (found : (region.read byte).1 = .byte kept)
    : kept = byte ∨ kept = ' '.toUInt8 := by
  cases region <;> grind [Region.read]

theorem Comments.length_readFrom_le (region : Region) (source : List UInt8)
    : (Parser.bytes (readFrom region source)).length ≤ source.length := by
  induction source generalizing region with
  | nil =>
      rw [readFrom]
      split <;> exact Nat.le_refl 0
  | cons byte rest ih =>
      rw [readFrom, Parser.bytes]
      cases reading : (region.read byte).1 with
      | byte kept => exact Nat.succ_le_succ (ih _)
      | fault => exact Nat.le_succ_of_le (ih _)

/-- Without a byte that cannot be read, comments are blanked and all else is kept, by induction on
the source.
-/
theorem Comments.blanked_readFrom {region : Region}
    (kept : (Parser.bytes (readFrom region source)).length = source.length)
    : Blanked source (Parser.bytes (readFrom region source)) := by
  induction source generalizing region with
  | nil =>
      rw [readFrom]
      split <;> exact .nil
  | cons byte rest ih =>
      rw [readFrom, Parser.bytes] at kept ⊢
      cases reading : (region.read byte).1 with
      | byte value =>
          rw [reading] at kept
          exact .cons (Region.read_eq_byte reading) (ih (Nat.succ.inj kept))
      | fault =>
          rw [reading] at kept
          have fewer : _ ≤ rest.length := length_readFrom_le (region.read byte).2 rest
          exact absurd (kept ▸ fewer) (Nat.not_succ_le_self _)

/-- A line end of the source that is blanked stands before one that is not. -/
def HidesLine (source stripped : List UInt8) : Prop :=
  ∃ i j : Nat,
    i < j
    ∧ source[i]? = some '\n'.toUInt8
    ∧ stripped[i]? ≠ some '\n'.toUInt8
    ∧ stripped[j]? = some '\n'.toUInt8

theorem hidesLine_cons_iff {byte kept : UInt8}
    : HidesLine (byte :: source) (kept :: stripped)
      ↔ (byte = '\n'.toUInt8 ∧ kept ≠ '\n'.toUInt8 ∧ '\n'.toUInt8 ∈ stripped)
        ∨ HidesLine source stripped := by
  constructor
  · rintro ⟨i, j, before, ends, blank, later⟩
    obtain ⟨j, rfl⟩ := Nat.exists_eq_add_one_of_ne_zero (Nat.ne_zero_of_lt before)
    rw [List.getElem?_cons_succ] at later
    cases i with
    | zero =>
        rw [List.getElem?_cons_zero] at ends blank
        exact .inl ⟨Option.some.inj ends, mt (congrArg some) blank, List.mem_of_getElem? later⟩
    | succ i =>
        rw [List.getElem?_cons_succ] at ends blank
        exact .inr ⟨i, j, Nat.lt_of_succ_lt_succ before, ends, blank, later⟩
  · rintro (⟨rfl, blank, member⟩ | ⟨i, j, before, ends, blank, later⟩)
    · obtain ⟨j, later⟩ := List.getElem?_of_mem member
      exact ⟨0, j + 1, Nat.succ_pos j, rfl, mt Option.some.inj blank, later⟩
    · exact ⟨i + 1, j + 1, Nat.succ_lt_succ before, ends, blank, later⟩

theorem HidesLine.mem (hides : HidesLine source stripped) : '\n'.toUInt8 ∈ stripped := by
  obtain ⟨_, _, _, _, _, later⟩ := hides
  exact List.mem_of_getElem? later

instance decidableHidesLine : (source stripped : List UInt8) → Decidable (HidesLine source stripped)
  | [], _ => isFalse (by rintro ⟨_, _, _, nothing, _⟩; cases nothing)
  | _, [] => isFalse fun hides => absurd hides.mem List.not_mem_nil
  | _ :: source, _ :: stripped =>
      have := decidableHidesLine source stripped
      decidable_of_iff _ hidesLine_cons_iff.symm

theorem eq_newline_of_kept {byte kept : UInt8} (here : kept = byte ∨ kept = ' '.toUInt8)
    (newline : kept = '\n'.toUInt8)
    : byte = '\n'.toUInt8 := by
  rcases here with rfl | space
  · exact newline
  · cases newline.symm.trans space

namespace Position

/-- The source has all line ends that are kept. -/
theorem lineEnds_le (blanked : Blanked source stripped) : lineEnds stripped ≤ lineEnds source := by
  induction blanked with
  | nil => exact Nat.le_refl 0
  | @cons byte kept source stripped here _ ih =>
      by_cases newline : kept = '\n'.toUInt8
      · have ends : byte = '\n'.toUInt8 := eq_newline_of_kept here newline
        subst newline ends
        rw [lineEnds_cons_newline, lineEnds_cons_newline]
        exact Nat.succ_le_succ ih
      · rw [lineEnds_cons_of_ne newline]
        exact Nat.le_trans ih List.count_le_count_cons

/-- The lines of the source are at most as long as as many lines of the blanked text, and as long if
no line end is hidden, by induction on the texts.
-/
theorem lineBytes_of_blanked (blanked : Blanked source stripped)
    : lineBytes (lineEnds stripped) source ≤ lineBytes (lineEnds stripped) stripped
      ∧ (lineBytes (lineEnds stripped) source = lineBytes (lineEnds stripped) stripped
        ↔ ¬ HidesLine source stripped) := by
  induction blanked with
  | nil => exact ⟨Nat.le_refl _, iff_of_true rfl fun hides => absurd hides.mem List.not_mem_nil⟩
  | @cons byte kept source stripped here blanked ih =>
      obtain ⟨shorter, same⟩ := ih
      rw [hidesLine_cons_iff]
      by_cases newline : kept = '\n'.toUInt8
      · -- a line end that is kept is one of the source
        have ends : byte = '\n'.toUInt8 := eq_newline_of_kept here newline
        subst newline ends
        rw [lineEnds_cons_newline, lineBytes_cons_newline, lineBytes_cons_newline,
          Nat.add_left_cancel_iff, same]
        exact ⟨Nat.add_le_add_left shorter 1, by simp⟩
      · rw [lineEnds_cons_of_ne newline]
        cases more : lineEnds stripped with
        | zero =>
            have noLine : '\n'.toUInt8 ∉ stripped := List.count_eq_zero.mp more
            rw [lineBytes_zero, lineBytes_zero]
            refine ⟨Nat.le_refl 0, iff_of_true rfl ?_⟩
            rintro (⟨_, _, member⟩ | hides)
            · exact noLine member
            · exact noLine hides.mem
        | succ count =>
            rw [more] at shorter same
            rw [lineBytes_cons_of_ne newline]
            by_cases ends : byte = '\n'.toUInt8
            · -- the line ends earlier in the source than in the blanked text
              subst ends
              have member : '\n'.toUInt8 ∈ stripped :=
                List.count_pos_iff.mp (Nat.lt_of_lt_of_eq (Nat.succ_pos count) more.symm)
              have earlier := lineBytes_lt (more ▸ lineEnds_le blanked)
              rw [lineBytes_cons_newline]
              refine ⟨by omega, iff_of_false (by omega) ?_⟩
              exact not_not_intro (.inl ⟨rfl, newline, member⟩)
            · rw [lineBytes_cons_of_ne ends, Nat.add_left_cancel_iff, same]
              exact ⟨Nat.add_le_add_left shorter 1, by simp [ends]⟩

end Position

-----------------------------------------------------------------------------------------
-- Offsets
-----------------------------------------------------------------------------------------

/-- The place of the byte that was read last, or behind it if it ends a line. -/
def lastRead (stripped : List UInt8) (count : Nat) : Nat :=
  if count = 0 ∨ stripped[count - 1]? = some '\n'.toUInt8 then count else count - 1

namespace Position

variable {count : Nat}

/-- The place after some bytes is one behind the byte that was read last, or at the start of a line.
-/
theorem lastRead_eq (within : count ≤ stripped.length)
    : lastRead stripped count
      = lineBytes (lineEnds (stripped.take count)) (stripped.take count)
        + ((after (stripped.take count)).column - 1) := by
  have size : (stripped.take count).length = count := List.length_take_of_le within
  have fresh : (after (stripped.take count)).column = 0
      ↔ count = 0 ∨ stripped[count - 1]? = some '\n'.toUInt8 := by
    rw [(after_marks (stripped.take count)).fresh, ← List.length_eq_zero_iff, size]
    refine or_congr_right' fun started => ?_
    rw [List.getLast?_take, if_neg started, List.getElem?_eq_getElem (by omega), Option.some_or]
  have column := (after_marks (stripped.take count)).column
  rw [size] at column
  rw [lastRead]
  split
  · next start =>
      rw [fresh.mpr start] at column ⊢
      exact column.symm
  · next start =>
      have positive := mt fresh.mp start
      omega

/-- The offset of an error is at most the place of the byte that was read last, and it is that place
exactly if no line end is hidden among the bytes that were read.
-/
theorem offset_after (blanked : Blanked source stripped) (within : count ≤ stripped.length)
    : (after (stripped.take count)).offset source ≤ lastRead stripped count
      ∧ ((after (stripped.take count)).offset source = lastRead stripped count
        ↔ ¬ HidesLine (source.take count) (stripped.take count)) := by
  have read : Blanked (source.take count) (stripped.take count) := List.forall₂_take count blanked
  obtain ⟨shorter, same⟩ := lineBytes_of_blanked read
  -- the lines before the place end in what was read of the source
  have lines : lineBytes (lineEnds (stripped.take count)) source
      = lineBytes (lineEnds (stripped.take count)) (source.take count) := by
    rw [← List.take_append_drop count source, lineBytes_append_of_le (lineEnds_le read),
      List.take_append_drop]
  have marks := after_marks (stripped.take count)
  have column := marks.column
  rw [List.length_take_of_le within] at column
  have fits : count ≤ source.length := blanked.length_eq ▸ within
  have offset : (after (stripped.take count)).offset source
      = lineBytes (lineEnds (stripped.take count)) (source.take count)
        + ((after (stripped.take count)).column - 1) := by
    rw [Position.offset, marks.line, Nat.add_sub_cancel, lines]
    exact Nat.min_eq_left (by omega)
  rw [offset, lastRead_eq within, Nat.add_right_cancel_iff, same]
  exact ⟨Nat.add_le_add_right shorter _, Iff.rfl⟩

end Position

-----------------------------------------------------------------------------------------
-- Bytes that a parser reads
-----------------------------------------------------------------------------------------

namespace Parser

theorem bytes_byte (byte : UInt8) (rest : List Reading)
    : bytes (.byte byte :: rest) = byte :: bytes rest :=
  rfl

/-- Blanks are skipped among the bytes that are there. -/
theorem skipBlanks_le (readings : List Reading)
    : (skipBlanks readings).1 ≤ (bytes readings).length
      ∧ ∀ byte following,
          (skipBlanks readings).2 = some (byte, following)
          → (skipBlanks readings).1 + (bytes following).length ≤ (bytes readings).length := by
  induction readings with
  | nil => exact ⟨Nat.le_refl 0, nofun⟩
  | cons reading rest ih =>
      cases reading with
      | fault => exact ⟨Nat.zero_le _, nofun⟩
      | byte byte =>
          obtain ⟨fits, found⟩ := ih
          rw [skipBlanks, bytes_byte, List.length_cons]
          split
          · refine ⟨Nat.succ_le_succ fits, fun next following same => ?_⟩
            have more := found next following same
            simp only
            omega
          · refine ⟨by omega, ?_⟩
            rintro _ _ ⟨⟩
            exact Nat.le_of_eq (Nat.add_comm _ _)

theorem closingBytes_le (container : Container) (rest : List Reading)
    : closingBytes container rest ≤ (bytes rest).length := by
  obtain ⟨fits, found⟩ := skipBlanks_le rest
  unfold closingBytes
  split
  · next count byte following same =>
      rw [same] at fits found
      split
      · exact Nat.le_trans (Nat.add_le_add_left (skipBlanks_le following).1 _)
          (found byte following rfl)
      · exact fits
  · next same =>
      rw [same] at fits
      exact fits

/-- A parser that fails has read at most the bytes that are there, by induction on the readings. -/
theorem consumed_le {state : State} {before count : Nat} {readings : List Reading} {cause : Cause}
    (failed : run state before readings = .error ⟨cause, some count⟩)
    : count ≤ before + (bytes readings).length := by
  induction readings generalizing state before with
  | nil =>
      rw [run] at failed
      split at failed
      · cases failed
      · cases failed
        exact Nat.le_refl _
  | cons reading rest ih =>
      cases reading with
      | byte byte =>
          rw [run] at failed
          rw [bytes_byte, List.length_cons]
          split at failed
          · have later := ih failed
            omega
          · cases failed
            omega
      | fault =>
          rw [run, Except.error.injEq, Failure.mk.injEq, Option.map_eq_some_iff] at failed
          obtain ⟨_, container, _, rfl⟩ := failed
          exact Nat.add_le_add_left (closingBytes_le container rest) before

end Parser

end ProtoSchema.Json
