import ProtoSchema.Proofs.Text.Indentation
import ProtoSchema.Proofs.Text.Lines
import ProtoSchema.TypeScript.Comment

/-! What normalizing a comment removes. A comment whose lines start with stars loses these, any
other one keeps all its visible characters. No line of the result ends with a blank character, and
lines without stars stay as they are relative to each other, since all are cut at one place of their
blank beginnings.
-/

namespace ProtoSchema.TypeScript

open Text

variable {line : List Char} {lines : List (List Char)}

-----------------------------------------------------------------------------------------
-- Stars
-----------------------------------------------------------------------------------------

/-- The first visible character of every line that is not blank is a star. -/
def Starred (lines : List (List Char)) : Prop :=
  ∀ line ∈ lines, ∀ c, (trimStart line).head? = some c → c = '*'

theorem isStarred_iff : isStarred lines = true ↔ Starred lines := by
  simp only [isStarred, Starred, List.all_eq_true]
  refine forall₂_congr fun line _ => ?_
  cases trimStart line <;> simp

instance (lines : List (List Char)) : Decidable (Starred lines) :=
  decidable_of_iff _ isStarred_iff

/-- A line without the stars that it starts with and the blank characters before them. -/
def withoutStars (line : List Char) : List Char :=
  (trimStart line).dropWhile (· = '*')

/-- Behind the stars, a line loses blank characters at its ends. -/
theorem stripStars_eq (line : List Char)
    : ∃ rest, stripStars line = trimEnd rest ∧ rest <:+ withoutStars line
        ∧ visible rest = visible (withoutStars line) := by
  rw [stripStars, ← withoutStars]
  split
  · next rest same =>
      rw [same]
      refine ⟨rest, rfl, List.suffix_cons _ _, ?_⟩
      rw [visible_cons, visible_space, List.nil_append]
  · exact ⟨_, rfl, List.suffix_refl _, rfl⟩

theorem visible_stripStars (line : List Char)
    : visible (stripStars line) = visible (withoutStars line) := by
  obtain ⟨rest, same, _, visibly⟩ := stripStars_eq line
  rw [same, visible_trimEnd, visibly]

theorem stripStars_endsVisible (line : List Char) : EndsVisible (stripStars line) := by
  obtain ⟨rest, same, _⟩ := stripStars_eq line
  exact same ▸ trimEnd_endsVisible rest

theorem stripStars_isInfix (line : List Char) : stripStars line <:+: line := by
  obtain ⟨rest, same, suffix, _⟩ := stripStars_eq line
  have stars : withoutStars line <:+ line :=
    (List.dropWhile_suffix _).trans (trimStart_isSuffix line)
  exact same ▸ (trimEnd_isPrefix rest).isInfix.trans (suffix.trans stars).isInfix

-----------------------------------------------------------------------------------------
-- Indentation
-----------------------------------------------------------------------------------------

theorem indentation_eq (line : List Char)
    : indentation line = byteSize (line.takeWhile isBlank) := by
  have parts := congrArg byteSize (takeWhile_append_trimStart line)
  rw [byteSize_append] at parts
  rw [indentation]
  omega

/-- The line is not blank. -/
theorem all_isBlank_eq_false (shown : visible line ≠ []) : line.all isBlank = false := by
  rw [← Bool.not_eq_true]
  exact mt visible_eq_nil_iff_all.mpr shown

/-- Lines that are not blank have at least the common indentation. -/
theorem commonIndentation_le (member : line ∈ lines) (shown : visible line ≠ [])
    : commonIndentation lines ≤ indentation line := by
  have found : indentation line
      ∈ (lines.filter fun line => !line.all isBlank).map indentation :=
    List.mem_map_of_mem (List.mem_filter.mpr ⟨member, by simp [all_isBlank_eq_false shown]⟩)
  rw [commonIndentation]
  cases least : ((lines.filter fun line => !line.all isBlank).map indentation).min? with
  | none => exact Nat.zero_le _
  | some count => exact (List.min?_eq_some_iff.mp least).2 _ found

/-- The place where a line is cut: after the given number of bytes, or after its blank beginning if
no character starts there.
-/
structure Cut (count : Nat) (line before kept : List Char) : Prop where
  split : line = before ++ kept
  blank : visible before = []
  place
    : byteSize before = count
      ∨ (∀ front back, line = front ++ back → byteSize front ≠ count) ∧ kept = trimStart line

/-- A line that is not blank loses what is cut off and its blank ending. -/
theorem dedent_cut {count : Nat} (shown : visible line ≠ []) (within : count ≤ indentation line)
    : ∃ before kept, Cut count line before kept ∧ dedent count line = trimEnd kept := by
  rw [dedent, if_neg (by simp [all_isBlank_eq_false shown])]
  cases found : dropBytes? count line with
  | some kept =>
      obtain ⟨before, split, size⟩ := dropBytes?_eq_some_iff.mp found
      rw [← size, indentation_eq] at within
      exact ⟨before, kept, ⟨split, visible_eq_nil_of_byteSize_le split within, .inl size⟩, rfl⟩
  | none =>
      have noPlace : ∀ front back, line = front ++ back → byteSize front ≠ count := by
        intro front back split size
        cases found.symm.trans (dropBytes?_eq_some_iff.mpr ⟨front, split, size⟩)
      have blank : visible (line.takeWhile isBlank) = [] :=
        visible_eq_nil_iff.mpr fun _ member => List.mem_takeWhile_imp member
      exact ⟨_, _, ⟨(takeWhile_append_trimStart line).symm, blank, .inr ⟨noPlace, rfl⟩⟩, rfl⟩

theorem dedent_of_blank (count : Nat) (hidden : visible line = []) : dedent count line = [] := by
  rw [dedent, if_pos (visible_eq_nil_iff_all.mp hidden)]

/-- What a line after the first becomes. A blank one becomes empty, and any other one has the bytes
that are to be cut off, is cut at a boundary between characters and loses its blank ending.
-/
structure Sliced (count : Nat) (line kept : List Char) : Prop where
  blank : visible line = [] → kept = []
  within : visible line ≠ [] → count ≤ byteSize line
  cut : visible line ≠ [] → ∃ before rest, Cut count line before rest ∧ kept = trimEnd rest

theorem indentation_le (line : List Char) : indentation line ≤ byteSize line :=
  Nat.sub_le _ _

theorem sliced_dedent (member : line ∈ lines)
    : Sliced (commonIndentation lines) line (dedent (commonIndentation lines) line) where
  blank := dedent_of_blank _
  within shown := (commonIndentation_le member shown).trans (indentation_le line)
  cut shown := dedent_cut shown (commonIndentation_le member shown)

/-- What is left of a line: all its visible characters, without a blank ending. -/
structure Keeps (line kept : List Char) : Prop where
  visible : visible kept = visible line
  ends : EndsVisible kept
  inside : kept <:+: line

theorem keeps_trimEnd (line : List Char) : Keeps line (trimEnd line) where
  visible := visible_trimEnd line
  ends := trimEnd_endsVisible line
  inside := (trimEnd_isPrefix line).isInfix

theorem keeps_dedent (member : line ∈ lines)
    : Keeps line (dedent (commonIndentation lines) line) := by
  by_cases hidden : visible line = []
  · rw [dedent_of_blank _ hidden]
    exact ⟨hidden.symm, nofun, List.nil_infix⟩
  · obtain ⟨before, kept, cut, same⟩ := dedent_cut hidden (commonIndentation_le member hidden)
    have rest := keeps_trimEnd kept
    have suffix : kept <:+ line := ⟨before, cut.split.symm⟩
    rw [same]
    refine ⟨?_, rest.ends, rest.inside.trans suffix.isInfix⟩
    rw [rest.visible, cut.split, visible_append, cut.blank, List.nil_append]

/-- Dedented lines keep what the lines have, one by one. -/
theorem forall₂_keeps_dedentLines (lines : List (List Char))
    : List.Forall₂ Keeps lines (dedentLines lines) := by
  cases lines with
  | nil => exact .nil
  | cons first rest =>
      refine .cons (keeps_trimEnd first) (List.forall₂_map_right_iff.mpr ?_)
      exact List.forall₂_same.mpr fun line member => keeps_dedent member

theorem map_visible_of_keeps {kept : List (List Char)} (keeps : List.Forall₂ Keeps lines kept)
    : kept.map visible = lines.map visible := by
  induction keeps with
  | nil => rfl
  | cons first _ ih => rw [List.map_cons, List.map_cons, first.visible, ih]

theorem mem_of_keeps {kept : List (List Char)} (keeps : List.Forall₂ Keeps lines kept)
    : ∀ line ∈ kept, EndsVisible line ∧ ∃ source ∈ lines, line <:+: source := by
  induction keeps with
  | nil => exact nofun
  | @cons source first _ _ here _ ih =>
      intro line member
      rcases List.mem_cons.mp member with rfl | member
      · exact ⟨here.ends, source, List.mem_cons_self, here.inside⟩
      · obtain ⟨ends, other, found, inside⟩ := ih line member
        exact ⟨ends, other, List.mem_cons_of_mem _ found, inside⟩

-----------------------------------------------------------------------------------------
-- The text that is left
-----------------------------------------------------------------------------------------

/-- The lines of a comment, without the blank ones around them. -/
def commentLines (comment : List Char) : List (List Char) :=
  Text.lines (trim comment)

variable {comment : List Char}

theorem visible_commentLines (comment : List Char)
    : (commentLines comment).flatMap visible = visible comment := by
  rw [commentLines, visible_lines, visible_trim]

theorem normalize_of_starred (starred : Starred (commentLines comment))
    : normalize comment = trim (joinLines ((commentLines comment).map stripStars)) := by
  rw [normalize, ← commentLines, if_pos (isStarred_iff.mpr starred)]

theorem normalize_of_not_starred (plain : ¬ Starred (commentLines comment))
    : normalize comment = joinLines (dedentLines (commentLines comment)) := by
  rw [normalize, ← commentLines, if_neg (mt isStarred_iff.mp plain)]

/-- Without stars, the visible characters of the comment are left. -/
theorem visible_normalize (plain : ¬ Starred (commentLines comment))
    : visible (normalize comment) = visible comment := by
  have kept := map_visible_of_keeps (forall₂_keeps_dedentLines (commentLines comment))
  rw [normalize_of_not_starred plain, visible_joinLines, List.flatMap_def, kept,
    ← List.flatMap_def, visible_commentLines]

/-- With stars, those of each line without its stars are left. -/
theorem visible_normalize_of_starred (starred : Starred (commentLines comment))
    : visible (normalize comment)
      = (commentLines comment).flatMap fun line => visible (withoutStars line) := by
  rw [normalize_of_starred starred, visible_trim, visible_joinLines, List.flatMap_map]
  exact List.flatMap_congr fun line _ => visible_stripStars line

/-- The lines that are left end visibly and have no line ends inside. -/
theorem mem_dedentLines {line : List Char} (member : line ∈ dedentLines (commentLines comment))
    : '\n' ∉ line ∧ EndsVisible line := by
  obtain ⟨ends, source, found, inside⟩ := mem_of_keeps (forall₂_keeps_dedentLines _) line member
  exact ⟨fun newline => newline_notMem_of_mem_lines found (inside.subset newline), ends⟩

/-- The last of the lines that are left is not blank, since that of the comment is not. -/
theorem visible_last_dedentLines {line : List Char}
    (last : (dedentLines (commentLines comment)).getLast? = some line)
    : visible line ≠ [] := by
  have kept := congrArg List.getLast?
    (map_visible_of_keeps (forall₂_keeps_dedentLines (commentLines comment)))
  rw [List.getLast?_map, List.getLast?_map, last, Option.map_some, eq_comm,
    Option.map_eq_some_iff] at kept
  obtain ⟨source, found, same⟩ := kept
  exact same ▸ visible_last_ne_nil (trim_endsVisible comment) found

/-- Without stars, the lines of the result are those of the comment, dedented. -/
theorem lines_normalize (plain : ¬ Starred (commentLines comment))
    : Text.lines (normalize comment) = dedentLines (commentLines comment) := by
  rw [normalize_of_not_starred plain]
  refine lines_joinLines (fun line member => ?_) fun last =>
    visible_last_dedentLines last rfl
  obtain ⟨newline, ends⟩ := mem_dedentLines member
  refine ⟨newline, fun last => ?_⟩
  have visibly := ends _ last
  revert visibly
  decide

theorem normalize_endsVisible (comment : List Char) : EndsVisible (normalize comment) := by
  by_cases starred : Starred (commentLines comment)
  · exact normalize_of_starred starred ▸ trim_endsVisible _
  · rw [normalize_of_not_starred starred]
    cases last : (dedentLines (commentLines comment)).getLast? with
    | none =>
        rw [List.getLast?_eq_none_iff.mp last]
        exact nofun
    | some line =>
        have nonempty : line ≠ [] := fun nothing =>
          visible_last_dedentLines last (by rw [nothing, visible_nil])
        exact joinLines_endsVisible last nonempty (mem_dedentLines (List.mem_of_getLast? last)).2

theorem normalize_startsVisible (comment : List Char) : StartsVisible (normalize comment) := by
  by_cases starred : Starred (commentLines comment)
  · exact normalize_of_starred starred ▸ trim_startsVisible _
  · rw [normalize_of_not_starred starred]
    have starts := trim_startsVisible comment
    rw [commentLines]
    cases found : trim comment with
    | nil => exact nofun
    | cons c rest =>
        have visibly := starts c (by rw [found, List.head?_cons])
        obtain ⟨line, following, split⟩ := lines_eq_cons visibly rest
        have first : StartsVisible (c :: line) := fun _ head => Option.some.inj head ▸ visibly
        have shown : visible (trimEnd (c :: line)) ≠ [] := by
          rw [visible_trimEnd, visible_cons]
          simp [visible, visibly]
        rw [split, dedentLines]
        exact joinLines_startsVisible (first.of_isPrefix (trimEnd_isPrefix _))
          (fun nothing => shown (by rw [nothing, visible_nil])) _

theorem normalize_tidy (comment : List Char) : Tidy (normalize comment) := by
  by_cases starred : Starred (commentLines comment)
  · rw [normalize_of_starred starred]
    refine List.IsChain.infix (tidy_joinLines fun line member => ?_) (trim_isInfix _)
    obtain ⟨source, found, rfl⟩ := List.mem_map.mp member
    refine ⟨fun newline => ?_, stripStars_endsVisible source⟩
    exact newline_notMem_of_mem_lines found ((stripStars_isInfix source).subset newline)
  · rw [normalize_of_not_starred starred]
    exact tidy_joinLines fun _ => mem_dedentLines

-----------------------------------------------------------------------------------------
-- Relative indentation
-----------------------------------------------------------------------------------------

/-- Lines that are not blank start with blank characters of one byte only. -/
def AsciiIndented (lines : List (List Char)) : Prop :=
  ∀ line ∈ lines, visible line ≠ [] → ∀ c ∈ line.takeWhile isBlank, c.toNat < 128

theorem all_asciiIndented_iff
    : (lines.all fun line =>
        visible line = [] || (line.takeWhile isBlank).all fun c => c.toNat < 128) = true
      ↔ AsciiIndented lines := by
  simp only [AsciiIndented, List.all_eq_true, Bool.or_eq_true, decide_eq_true_eq, ne_eq,
    or_iff_not_imp_left]

instance (lines : List (List Char)) : Decidable (AsciiIndented lines) :=
  decidable_of_iff _ all_asciiIndented_iff

/-- The least number of blank characters that a line starts with, blank lines apart. -/
structure CommonLeading (lines : List (List Char)) (count : Nat) : Prop where
  least : ∀ line ∈ lines, visible line ≠ [] → count ≤ leading line
  attained : ∃ line ∈ lines, visible line ≠ [] ∧ leading line = count

theorem AsciiIndented.indentation_eq (ascii : AsciiIndented lines) (member : line ∈ lines)
    (shown : visible line ≠ [])
    : indentation line = leading line := by
  rw [TypeScript.indentation_eq, byteSize_eq_length (ascii line member shown), leading]

/-- With characters of one byte, lines share as many bytes of indentation as characters. -/
theorem AsciiIndented.commonIndentation_eq {count : Nat} (ascii : AsciiIndented lines)
    (common : CommonLeading lines count)
    : commonIndentation lines = count := by
  obtain ⟨line, member, shown, same⟩ := common.attained
  have least
      : ((lines.filter fun line => !line.all isBlank).map indentation).min? = some count := by
    rw [List.min?_eq_some_iff]
    constructor
    · refine List.mem_map.mpr ⟨line, List.mem_filter.mpr ⟨member, ?_⟩, ?_⟩
      · simp [all_isBlank_eq_false shown]
      · rw [ascii.indentation_eq member shown, same]
    · intro other found
      obtain ⟨source, kept, rfl⟩ := List.mem_map.mp found
      obtain ⟨inside, blank⟩ := List.mem_filter.mp kept
      have visibly : visible source ≠ [] := fun hidden => by
        simp [visible_eq_nil_iff_all.mp hidden] at blank
      rw [ascii.indentation_eq inside visibly]
      exact common.least source inside visibly
  rw [commonIndentation, least, Option.getD_some]

/-- What is left of a line that loses the given number of blank characters, and its blank ending. -/
structure Outdented (count : Nat) (line kept : List Char) : Prop where
  blank : visible line = [] → kept = []
  cut
    : visible line ≠ []
      → ∃ lost ending,
          line = lost ++ kept ++ ending
          ∧ lost.length = count
          ∧ visible lost = []
          ∧ visible ending = []
  relative : visible line ≠ [] → leading line = count + leading kept

/-- Within a blank beginning of one byte characters every place is a boundary. -/
theorem length_of_cut {count : Nat} {before kept : List Char} (cut : Cut count line before kept)
    (ascii : ∀ c ∈ line.takeWhile isBlank, c.toNat < 128) (within : count ≤ leading line)
    : before.length = count := by
  have beginning := takeWhile_append_of_visible cut.blank kept
  rw [← cut.split] at beginning
  rcases cut.place with size | ⟨noPlace, _⟩
  · rw [← size, byteSize_eq_length fun c member => ascii c ?_]
    rw [beginning]
    exact List.mem_append_left _ member
  · have bytes : byteSize (line.take count) = count := by
      have inside : line.take count = (line.takeWhile isBlank).take count := by
        rw [← takeWhile_append_trimStart line, List.take_append_of_le_length within,
          takeWhile_append_trimStart]
      rw [inside, byteSize_eq_length fun c member => ascii c (List.mem_of_mem_take member),
        List.length_take]
      exact Nat.min_eq_left within
    exact absurd bytes (noPlace _ _ (List.take_append_drop count line).symm)

theorem outdented_dedent {count : Nat} (ascii : AsciiIndented lines)
    (common : CommonLeading lines count) (member : line ∈ lines)
    : Outdented count line (dedent (commonIndentation lines) line) := by
  by_cases hidden : visible line = []
  · rw [dedent_of_blank _ hidden]
    exact ⟨fun _ => rfl, fun shown => absurd hidden shown, fun shown => absurd hidden shown⟩
  · have within := common.least line member hidden
    obtain ⟨before, kept, cut, same⟩ := dedent_cut hidden (commonIndentation_le member hidden)
    rw [ascii.commonIndentation_eq common] at cut
    have size := length_of_cut cut (ascii line member hidden) within
    obtain ⟨blanks, blank, ending⟩ := exists_eq_trimEnd_append kept
    have shown : visible kept ≠ [] := by
      rwa [cut.split, visible_append, cut.blank, List.nil_append] at hidden
    rw [same]
    refine ⟨fun blank => absurd blank hidden, fun _ => ⟨before, blanks, ?_, size, cut.blank,
      visible_eq_nil_iff.mpr blank⟩, fun _ => ?_⟩
    · rw [List.append_assoc, ← ending, cut.split]
    · rw [leading_trimEnd shown, leading, leading, cut.split, takeWhile_append_of_visible cut.blank,
        List.length_append, size]

-----------------------------------------------------------------------------------------
-- Normalized comments
-----------------------------------------------------------------------------------------

/-- A comment with a line that does not start with a star has a first line. -/
theorem exists_cons_of_not_starred (plain : ¬ Starred lines)
    : ∃ first rest, lines = first :: rest :=
  List.exists_cons_of_ne_nil fun nothing => plain (nothing ▸ nofun)

/-- Normalizing a comment removes blank characters and, if all of its lines start with stars, these.
The result neither starts nor ends with a blank character, and none of its lines ends with one.
Without stars the comment keeps its lines, and their relative indentation if that is ASCII.
-/
theorem normalize_keeps_text (comment : List Char)
    : (Starred (commentLines comment)
        → visible (normalize comment)
          = (commentLines comment).flatMap fun line => visible (withoutStars line))
      ∧ (¬ Starred (commentLines comment) → visible (normalize comment) = visible comment)
      ∧ StartsVisible (normalize comment)
      ∧ EndsVisible (normalize comment)
      ∧ (∀ line ∈ (normalize comment).splitOn '\n', EndsVisible line)
      ∧ (¬ Starred (commentLines comment)
        → (Text.lines (normalize comment)).length = (commentLines comment).length
          ∧ ∃ first rest kept,
              commentLines comment = first :: rest
              ∧ Text.lines (normalize comment) = trimEnd first :: kept
              ∧ List.Forall₂ (Sliced (commonIndentation rest)) rest kept
              ∧ ∀ count,
                  AsciiIndented rest
                  → CommonLeading rest count
                  → List.Forall₂ (Outdented count) rest kept) := by
  have ends := normalize_endsVisible comment
  refine ⟨visible_normalize_of_starred, visible_normalize, normalize_startsVisible comment, ends,
    (normalize_tidy comment).endsVisible ends, fun plain => ?_⟩
  have kept := lines_normalize plain
  refine ⟨?_, ?_⟩
  · rw [kept]
    exact (forall₂_keeps_dedentLines (commentLines comment)).length_eq.symm
  · obtain ⟨first, rest, split⟩ := exists_cons_of_not_starred plain
    rw [split, dedentLines] at kept
    refine ⟨first, rest, _, split, kept, ?_, fun count ascii common => ?_⟩
    · exact List.forall₂_map_right_iff.mpr (List.forall₂_same.mpr fun _ => sliced_dedent)
    · exact List.forall₂_map_right_iff.mpr
        (List.forall₂_same.mpr fun _ => outdented_dedent ascii common)

def starredComment : List Char :=
  "* First line\n   * Second * line\n   *".toList

def indentedComment : List Char :=
  "First *\n    indented\n\n      more  ".toList

/-- One of the two comments loses its stars, the other one its indentation. -/
theorem starred_and_indented_keep_text
    : visible (normalize starredComment) = "FirstlineSecond*line".toList
      ∧ visible (normalize indentedComment) = visible indentedComment
      ∧ ∃ kept,
          Text.lines (normalize indentedComment) = "First *".toList :: kept
          ∧ List.Forall₂ (Outdented 4)
              ["    indented".toList, [], "      more".toList] kept := by
  have starred : Starred (commentLines starredComment) := by decide +kernel
  have plain : ¬ Starred (commentLines indentedComment) := by decide +kernel
  have split : commentLines indentedComment
      = "First *".toList :: ["    indented".toList, [], "      more".toList] := by decide +kernel
  have starless := (normalize_keeps_text starredComment).1 starred
  obtain ⟨_, visibly, _, _, _, dedented⟩ := normalize_keeps_text indentedComment
  obtain ⟨_, first, rest, kept, same, lines, _, relative⟩ := dedented plain
  obtain ⟨rfl, rfl⟩ := List.cons.inj (split.symm.trans same)
  have unchanged : trimEnd "First *".toList = "First *".toList := by decide +kernel
  rw [unchanged] at lines
  exact ⟨starless.trans (by decide +kernel), visibly plain, kept, lines,
    relative 4 (by decide +kernel) ⟨by decide +kernel, by decide +kernel⟩⟩

end ProtoSchema.TypeScript
