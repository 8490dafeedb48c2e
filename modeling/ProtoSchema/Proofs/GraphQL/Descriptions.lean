import ProtoSchema.Proofs.GraphQL.BlockStrings

/-! Printed descriptions. What stands between the quotes of a printed description reads as its
trimmed text, since the lines of a longer one share exactly the indentation that is printed before
them and the text itself neither starts nor ends with a blank line.
-/

namespace ProtoSchema.GraphQL

open BlockString

variable {indent text : List Char}

-----------------------------------------------------------------------------------------
-- The content of a printed block string
-----------------------------------------------------------------------------------------

/-- A line of a block string without its newline. -/
def indentLine (indent line : List Char) : List Char :=
  if line.isEmpty then [] else indent ++ line

/-- What stands between the quotes of a block string before its quotes are escaped. -/
def blockContent (indent text : List Char) : List Char :=
  if fitsOneLine (escapeQuotes text) then text
  else Text.joinLines ([] :: ((Text.lines text).map (indentLine indent) ++ [indent]))

theorem blockLine_eq (indent line : List Char)
    : blockLine indent line = indentLine indent line ++ ['\n'] := by
  cases line <;> rfl

/-- Lines of a block string and what follows them are joined by newlines. -/
theorem flatMap_blockLine (indent after : List Char) (lines : List (List Char))
    : lines.flatMap (blockLine indent) ++ after
      = Text.joinLines (lines.map (indentLine indent) ++ [after]) := by
  induction lines with
  | nil => exact (Text.joinLines_singleton after).symm
  | cons first rest ih =>
      rw [List.flatMap_cons, List.append_assoc, ih, blockLine_eq, List.map_cons, List.cons_append,
        List.append_assoc, List.singleton_append, Text.joinLines_cons_of_ne_nil _ (by simp)]

theorem escapeQuotes_joinLines (parts : List (List Char))
    : escapeQuotes (Text.joinLines parts) = Text.joinLines (parts.map escapeQuotes) := by
  induction parts with
  | nil => rfl
  | cons first rest ih =>
      cases rest with
      | nil => simp only [List.map_cons, List.map_nil, Text.joinLines_singleton]
      | cons second rest =>
          rw [Text.joinLines_cons_cons, escapeQuotes_append_cons (by decide), ih, List.map_cons,
            List.map_cons, List.map_cons, Text.joinLines_cons_cons]

theorem escapeQuotes_of_plain (plain : '"' ∉ text) : escapeQuotes text = text := by
  have alone := escapeQuotes_append plain []
  rwa [List.append_nil, escapeQuotes_nil, List.append_nil] at alone

theorem escapeQuotes_indentLine (plain : '"' ∉ indent) (line : List Char)
    : escapeQuotes (indentLine indent line) = indentLine indent (escapeQuotes line) := by
  cases line with
  | nil => rfl
  | cons c rest =>
      have nonempty : escapeQuotes (c :: rest) ≠ [] :=
        mt escapeQuotes_eq_nil_iff.mp (List.cons_ne_nil c rest)
      rw [indentLine, indentLine, if_neg (by simp), if_neg (by simpa using nonempty),
        escapeQuotes_append plain]

-----------------------------------------------------------------------------------------
-- Printed descriptions are read back
-----------------------------------------------------------------------------------------

/-- A trimmed text with something in it, whose lines end at newlines. -/
structure Paragraphs (text : List Char) : Prop where
  nonempty : text ≠ []
  starts : Text.StartsVisible text
  ends : Text.EndsVisible text
  plain : '\r' ∉ text

namespace Paragraphs

theorem joinLines_lines (paragraphs : Paragraphs text)
    : Text.joinLines (Text.lines text) = text :=
  Text.joinLines_lines paragraphs.plain paragraphs.ends.ne_newline

/-- Quotes are escaped line by line. -/
theorem lines_escapeQuotes (paragraphs : Paragraphs text)
    : Text.lines (escapeQuotes text) = (Text.lines text).map escapeQuotes := by
  have inside : ∀ line ∈ (Text.lines text).map escapeQuotes,
      '\n' ∉ line ∧ line.getLast? ≠ some '\r' := by
    intro line member
    obtain ⟨source, found, rfl⟩ := List.mem_map.mp member
    rw [mem_escapeQuotes_iff (by decide)]
    refine ⟨Text.newline_notMem_of_mem_lines found, fun last => paragraphs.plain ?_⟩
    have carriage := (mem_escapeQuotes_iff (by decide)).mp (List.mem_of_getLast? last)
    exact (Text.isInfix_of_mem_lines found).subset carriage
  have last : ((Text.lines text).map escapeQuotes).getLast? ≠ some [] := by
    rw [List.getLast?_map, ne_eq, Option.map_eq_some_iff]
    rintro ⟨line, found, nothing⟩
    rw [escapeQuotes_eq_nil_iff.mp nothing] at found
    exact Text.visible_last_ne_nil paragraphs.ends found rfl
  have joined := Text.lines_joinLines inside last
  rwa [← escapeQuotes_joinLines, paragraphs.joinLines_lines] at joined

/-- A block string has its escaped content between three quotes. -/
theorem blockString_eq (paragraphs : Paragraphs text) (plain : '"' ∉ indent)
    : blockString indent text
      = indent ++ (blockQuotes ++ (escapeQuotes (blockContent indent text)
          ++ blockQuotes ++ ['\n'])) := by
  by_cases fits : fitsOneLine (escapeQuotes text) = true
  · simp only [blockString, blockContent, fits, ite_true, List.append_assoc]
  · have lines : (Text.lines text).map (escapeQuotes ∘ indentLine indent)
        = (Text.lines (escapeQuotes text)).map (indentLine indent) := by
      rw [paragraphs.lines_escapeQuotes, List.map_map]
      exact List.map_congr_left fun line _ => escapeQuotes_indentLine plain line
    rw [blockContent, if_neg fits, escapeQuotes_joinLines, List.map_cons, List.map_append,
      List.map_map, lines, List.map_singleton, escapeQuotes_of_plain plain, escapeQuotes_nil,
      Text.joinLines_cons_of_ne_nil _ (by simp), ← flatMap_blockLine]
    simp only [blockString, fits, Bool.false_eq_true, ite_false, List.append_assoc,
      List.cons_append, List.nil_append]

/-- The content of a block string does not run into its closing quotes. -/
theorem exists_blockContent_eq (paragraphs : Paragraphs text)
    (indented : ∀ c ∈ indent, isIndentation c = true)
    : ∃ front last, blockContent indent text = front ++ [last] ∧ last ≠ '"' ∧ last ≠ '\\' := by
  by_cases fits : fitsOneLine (escapeQuotes text) = true
  · rw [blockContent, if_pos fits]
    simp only [fitsOneLine, getLast?_escapeQuotes, Bool.and_eq_true, decide_eq_true_eq] at fits
    obtain ⟨⟨_, noQuote⟩, noBackslash⟩ := fits
    have split := List.dropLast_concat_getLast paragraphs.nonempty
    rw [List.getLast?_eq_some_getLast paragraphs.nonempty] at noQuote noBackslash
    exact ⟨_, _, split.symm, fun same => noQuote (congrArg some same),
      fun same => noBackslash (congrArg some same)⟩
  · rw [blockContent, if_neg fits, ← List.cons_append,
      Text.joinLines_append_singleton (List.cons_ne_nil _ _)]
    rcases List.eq_nil_or_concat indent with rfl | ⟨front, last, rfl⟩
    · exact ⟨_, '\n', rfl, by decide, by decide⟩
    · rw [List.concat_eq_append] at indented ⊢
      have space := indented last (List.mem_append_right _ List.mem_cons_self)
      refine ⟨_, last, (List.append_assoc _ ('\n' :: front) [last]).symm, ?_, ?_⟩
      all_goals
        rintro rfl
        revert space
        decide

-----------------------------------------------------------------------------------------
-- The lines of a printed block string
-----------------------------------------------------------------------------------------

theorem isIndentation_eq_false {c : Char} (visibly : Text.isBlank c = false)
    : isIndentation c = false := by
  by_contra space
  simp only [Bool.not_eq_false, isIndentation, Bool.or_eq_true, decide_eq_true_eq] at space
  rcases space with rfl | rfl <;> revert visibly <;> decide

/-- The first line starts with a visible character. -/
theorem lines_eq_cons (paragraphs : Paragraphs text)
    : ∃ c line following,
        Text.lines text = (c :: line) :: following ∧ isIndentation c = false := by
  obtain ⟨c, rest, rfl⟩ := List.exists_cons_of_ne_nil paragraphs.nonempty
  have visibly := paragraphs.starts c rfl
  obtain ⟨line, following, split⟩ := Text.lines_eq_cons visibly rest
  exact ⟨c, line, following, split, isIndentation_eq_false visibly⟩

/-- The last line ends with a visible character. -/
theorem lines_eq_append (paragraphs : Paragraphs text)
    : ∃ front line c, Text.lines text = front ++ [line ++ [c]] ∧ isIndentation c = false := by
  rcases List.eq_nil_or_concat text with rfl | ⟨before, c, rfl⟩
  · exact absurd rfl paragraphs.nonempty
  · have ends := paragraphs.ends
    rw [List.concat_eq_append] at ends ⊢
    have visibly := ends c List.getLast?_concat
    have other : c ≠ '\n' := by rintro rfl; revert visibly; decide
    obtain ⟨front, line, split⟩ := Text.lines_eq_append other before
    exact ⟨front, line, c, split, isIndentation_eq_false visibly⟩

theorem indentation_indented (indented : ∀ c ∈ indent, isIndentation c = true) (line : List Char)
    : indentation (indent ++ line) = indent.length + indentation line := by
  rw [indentation, List.takeWhile_append_of_pos indented, List.length_append, indentation]

/-- The lines of a block string share the indentation of the first one, and no more. -/
theorem commonIndentation_indented (paragraphs : Paragraphs text)
    (indented : ∀ c ∈ indent, isIndentation c = true)
    : commonIndentation ((Text.lines text).map (indentLine indent) ++ [indent])
      = indent.length := by
  have least : (((((Text.lines text).map (indentLine indent) ++ [indent]).filter
      fun line => !isBlankLine line).map indentation).min?) = some indent.length := by
    rw [List.min?_eq_some_iff]
    constructor
    · obtain ⟨c, line, following, split, visibly⟩ := paragraphs.lines_eq_cons
      refine List.mem_map.mpr ⟨indent ++ c :: line, List.mem_filter.mpr ⟨?_, ?_⟩, ?_⟩
      · rw [split]
        exact List.mem_cons_self
      · simp [isBlankLine, visibly]
      · rw [indentation_indented indented, indentation,
          List.takeWhile_cons_of_neg (by simp [visibly])]
        rfl
    · intro count member
      obtain ⟨line, kept, rfl⟩ := List.mem_map.mp member
      obtain ⟨found, visibly⟩ := List.mem_filter.mp kept
      rcases List.mem_append.mp found with content | last
      · obtain ⟨source, _, rfl⟩ := List.mem_map.mp content
        cases source with
        | nil => cases visibly
        | cons c rest =>
            exact (indentation_indented indented (c :: rest)).symm ▸ Nat.le_add_right _ _
      · rw [List.mem_singleton.mp last, isBlankLine, List.all_eq_true.mpr indented] at visibly
        cases visibly
  rw [commonIndentation, least, Option.getD_some]

theorem drop_indentLine (indent line : List Char)
    : (indentLine indent line).drop indent.length = line := by
  cases line with
  | nil => exact List.drop_nil
  | cons c rest => exact List.drop_left

theorem dedent_indented (paragraphs : Paragraphs text)
    (indented : ∀ c ∈ indent, isIndentation c = true)
    : dedent ([] :: ((Text.lines text).map (indentLine indent) ++ [indent]))
      = [] :: (Text.lines text ++ [[]]) := by
  rw [dedent, paragraphs.commonIndentation_indented indented, List.map_append, List.map_map,
    List.map_singleton, List.drop_length]
  congr 2
  exact (List.map_congr_left fun line _ => drop_indentLine indent line).trans (List.map_id _)

/-- The lines of a text are kept without the blank ones around them. -/
theorem dropBlankEnds_lines (paragraphs : Paragraphs text)
    : dropBlankEnds (Text.lines text) = Text.lines text
      ∧ dropBlankEnds ([] :: (Text.lines text ++ [[]])) = Text.lines text := by
  obtain ⟨c, line, following, split, visibly⟩ := paragraphs.lines_eq_cons
  obtain ⟨front, last, d, splitLast, lastVisibly⟩ := paragraphs.lines_eq_append
  have start (more : List (List Char))
      : (Text.lines text ++ more).dropWhile isBlankLine = Text.lines text ++ more := by
    rw [split, List.cons_append, List.dropWhile_cons_of_neg (by simp [isBlankLine, visibly])]
  have ending : (Text.lines text).reverse.dropWhile isBlankLine = (Text.lines text).reverse := by
    rw [splitLast, List.reverse_append, List.reverse_singleton, List.singleton_append,
      List.dropWhile_cons_of_neg (by simp [isBlankLine, lastVisibly])]
  constructor
  · have whole := start []
    rw [List.append_nil] at whole
    rw [dropBlankEnds, whole, ending, List.reverse_reverse]
  · rw [dropBlankEnds, List.dropWhile_cons_of_pos rfl, start, List.reverse_append,
      List.reverse_singleton, List.singleton_append, List.dropWhile_cons_of_pos rfl, ending,
      List.reverse_reverse]

theorem value_joinLines {parts : List (List Char)} (inside : ∀ line ∈ parts, '\n' ∉ line)
    (nonempty : parts ≠ [])
    : value (Text.joinLines parts) = Text.joinLines (dropBlankEnds (dedent parts)) := by
  have split : (Text.joinLines parts).splitOn '\n' = parts :=
    List.splitOn_intercalate '\n' inside nonempty
  rw [value, split]

theorem newline_notMem_indented (indented : ∀ c ∈ indent, isIndentation c = true)
    (text : List Char)
    : ∀ line ∈ [] :: ((Text.lines text).map (indentLine indent) ++ [indent]), '\n' ∉ line := by
  have space : '\n' ∉ indent := fun member => absurd (indented _ member) (by decide)
  intro line member newline
  rcases List.mem_cons.mp member with rfl | member
  · cases newline
  · rcases List.mem_append.mp member with content | last
    · obtain ⟨source, found, rfl⟩ := List.mem_map.mp content
      rw [indentLine] at newline
      split at newline
      · cases newline
      · exact (List.mem_append.mp newline).elim space (Text.newline_notMem_of_mem_lines found)
    · exact space (List.mem_singleton.mp last ▸ newline)

/-- The content of a block string stands for the text. -/
theorem value_blockContent (paragraphs : Paragraphs text)
    (indented : ∀ c ∈ indent, isIndentation c = true)
    : value (blockContent indent text) = text := by
  by_cases fits : fitsOneLine (escapeQuotes text) = true
  · have newline : '\n' ∉ text := by
      simp only [fitsOneLine, Bool.and_eq_true] at fits
      rw [← mem_escapeQuotes_iff (by decide)]
      simpa using fits.1.1
    have inside : ∀ line ∈ [text], '\n' ∉ line := by simpa using newline
    have whole := value_joinLines inside (List.cons_ne_nil _ _)
    have blank := paragraphs.dropBlankEnds_lines.1
    rw [Text.lines_eq_singleton newline paragraphs.nonempty] at blank
    rw [dedent, List.map_nil, blank, Text.joinLines_singleton] at whole
    rw [blockContent, if_pos fits, whole]
  · rw [blockContent, if_neg fits, value_joinLines (newline_notMem_indented indented text)
      (List.cons_ne_nil _ _), paragraphs.dedent_indented indented, paragraphs.dropBlankEnds_lines.2,
      paragraphs.joinLines_lines]

/-- A block string is read back up to the newline after its quotes, whatever follows. -/
theorem read_blockString (paragraphs : Paragraphs text)
    (indented : ∀ c ∈ indent, isIndentation c = true) (rest : List Char)
    : BlockString.read (blockString indent text ++ rest) = some (text, '\n' :: rest) := by
  have noQuote : '"' ∉ indent := fun member => absurd (indented _ member) (by decide)
  obtain ⟨front, last, content, lastQuote, lastBackslash⟩ :=
    paragraphs.exists_blockContent_eq indented
  have opening : (blockString indent text ++ rest).dropWhile isIndentation
      = '"' :: '"' :: '"' ::
          (escapeQuotes (front ++ [last]) ++ blockQuotes ++ ('\n' :: rest)) := by
    rw [paragraphs.blockString_eq noQuote, content, List.append_assoc,
      List.dropWhile_append_of_pos indented]
    simp [blockQuotes, isIndentation]
  have stands : value (front ++ [last]) = text := by
    rw [← content, paragraphs.value_blockContent indented]
  rw [BlockString.read, opening]
  simp only [scan_closed lastQuote lastBackslash, Option.map_some, stands]

end Paragraphs

/-- The trimmed text of a description that is not blank. -/
theorem paragraphs_trim {text : List Char} (plain : '\r' ∉ text)
    (visibly : ¬ ∀ c ∈ text, Text.isBlank c = true)
    : Paragraphs (Text.trim text) where
  nonempty := mt Text.trim_eq_nil_iff.mp visibly
  starts := Text.trim_startsVisible text
  ends := Text.trim_endsVisible text
  plain member := plain ((Text.trim_isInfix text).subset member)

/-- Reading a printed description gives back its trimmed text and stops at the newline after its
quotes, whatever follows; nothing is printed for a blank description.
-/
theorem description_survives {indent text : String}
    (indented : ∀ c ∈ indent.toList, isIndentation c = true) (plain : '\r' ∉ text.toList)
    : (Text.isBlankText text = true → printDescription indent (some text) = "")
      ∧ (Text.isBlankText text = false
          → ∀ rest,
              BlockString.read ((printDescription indent (some text)).toList ++ rest)
                = some (Text.trim text.toList, '\n' :: rest)) := by
  simp only [printDescription, describe, String.toList_ofList]
  constructor
  · intro blank
    rw [Text.trim_eq_nil_iff.mpr (List.all_eq_true.mp blank)]
    rfl
  · intro shown rest
    have visibly : ¬ ∀ c ∈ text.toList, Text.isBlank c = true := fun blank => by
      rw [Text.isBlankText, List.all_eq_true.mpr blank] at shown
      cases shown
    have paragraphs := paragraphs_trim plain visibly
    rw [if_neg (by simpa using paragraphs.nonempty), paragraphs.read_blockString indented]

/-- A description with quotes at both ends, an escaped run of quotes and an indented line. -/
def quotedText : String :=
  " \"Start\\\"\"\"\" run\n\n   over\\\nend\"\n"

/-- Printed before a field, that description is read back. -/
theorem quoted_description_survives
    : (∀ c ∈ "  ".toList, isIndentation c = true)
      ∧ '\r' ∉ quotedText.toList
      ∧ Text.isBlankText quotedText = false
      ∧ ∀ rest,
          BlockString.read ((printDescription "  " (some quotedText)).toList ++ rest)
            = some ("\"Start\\\"\"\"\" run\n\n   over\\\nend\"".toList, '\n' :: rest) := by
  have trimmed : Text.trim quotedText.toList
      = "\"Start\\\"\"\"\" run\n\n   over\\\nend\"".toList := by decide
  have indented : ∀ c ∈ "  ".toList, isIndentation c = true :=
    List.all_eq_true.mp (by decide)
  have plain : '\r' ∉ quotedText.toList := by decide
  have shown : Text.isBlankText quotedText = false := by decide
  refine ⟨indented, plain, shown, fun rest => ?_⟩
  rw [← trimmed]
  exact (description_survives indented plain).2 shown rest

end ProtoSchema.GraphQL
