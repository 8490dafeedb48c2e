import Mathlib.Data.List.Infix
import ProtoSchema.Proofs.Text.Lines
import ProtoSchema.TypeScript.Declaration

/-! JSDoc comments are delimited. The text of a comment never closes it: its own closing delimiters
are escaped, and what is put between its lines separates a star at the end of one from a slash at
the start of the next. Before a property or an enumeration member a comment has no line end.
-/

namespace ProtoSchema.TypeScript

variable {text : List Char}

-----------------------------------------------------------------------------------------
-- Texts that close no comment
-----------------------------------------------------------------------------------------

/-- No star of the text has a slash directly after it. -/
def Unclosed (text : List Char) : Prop :=
  ¬ "*/".toList <:+: text

instance (text : List Char) : Decidable (Unclosed text) :=
  inferInstanceAs (Decidable (¬ _))

theorem Unclosed.of_isInfix {part : List Char} (unclosed : Unclosed text) (inside : part <:+: text)
    : Unclosed part :=
  fun closes => unclosed (closes.trans inside)

theorem unclosed_cons_iff {c : Char} {rest : List Char}
    : Unclosed (c :: rest) ↔ (c = '*' → rest.head? ≠ some '/') ∧ Unclosed rest := by
  have start : "*/".toList <+: c :: rest ↔ c = '*' ∧ rest.head? = some '/' := by
    cases rest <;> simp [List.cons_prefix_cons, eq_comm]
  rw [Unclosed, Unclosed, List.infix_cons_iff, start, not_or, not_and]

/-- A character that is neither a star nor a slash keeps apart what stands around it. -/
theorem Unclosed.append_cons {c : Char} {front back : List Char} (left : Unclosed front)
    (right : Unclosed back) (noStar : c ≠ '*') (noSlash : c ≠ '/')
    : Unclosed (front ++ c :: back) := by
  induction front with
  | nil => exact unclosed_cons_iff.mpr ⟨fun star => absurd star noStar, right⟩
  | cons first front ih =>
      obtain ⟨apart, left⟩ := unclosed_cons_iff.mp left
      refine unclosed_cons_iff.mpr ⟨fun star => ?_, ih left⟩
      cases front with
      | nil => simpa using noSlash
      | cons next front => exact apart star

theorem head?_escapeClosing (text : List Char) : (escapeClosing text).head? = text.head? := by
  cases text using escapeClosing.induct with
  | case1 | case3 => rfl
  | case2 c rest plain => rw [escapeClosing.eq_2 c rest plain]; rfl

theorem unclosed_escapeClosing (text : List Char) : Unclosed (escapeClosing text) := by
  induction text using escapeClosing.induct with
  | case1 rest ih =>
      rw [escapeClosing]
      simp only [unclosed_cons_iff, List.head?_cons]
      exact ⟨by decide, by decide, fun star => absurd star (by decide), ih⟩
  | case2 c rest plain ih =>
      rw [escapeClosing.eq_2 c rest plain, unclosed_cons_iff, head?_escapeClosing]
      refine ⟨fun star head => ?_, ih⟩
      obtain ⟨more, rfl⟩ := List.head?_eq_some_iff.mp head
      exact plain more star rfl
  | case3 => decide

-----------------------------------------------------------------------------------------
-- The text between the delimiters
-----------------------------------------------------------------------------------------

/-- Parts joined by spaces close no comment, by induction on the parts. -/
theorem unclosed_intercalate_space {parts : List (List Char)}
    (unclosed : ∀ part ∈ parts, Unclosed part)
    : Unclosed (List.intercalate [' '] parts) := by
  induction parts with
  | nil => decide
  | cons first rest ih =>
      have here := unclosed first List.mem_cons_self
      cases rest with
      | nil => simpa using here
      | cons second rest =>
          rw [List.intercalate_cons_cons, List.append_assoc, List.singleton_append]
          have below := ih fun part member => unclosed part (List.mem_cons_of_mem _ member)
          exact here.append_cons below (by decide) (by decide)

theorem unclosed_oneLine (unclosed : Unclosed text) : Unclosed (oneLine text) := by
  refine unclosed_intercalate_space fun part member => ?_
  obtain ⟨line, found, rfl⟩ := List.mem_map.mp (List.mem_filter.mp member).1
  exact unclosed.of_isInfix ((Text.trim_isInfix line).trans (Text.isInfix_of_mem_lines found))

/-- Lines behind a gutter close no comment, by induction on the lines. -/
theorem unclosed_gutterLines {lines : List (List Char)} (unclosed : ∀ line ∈ lines, Unclosed line)
    : Unclosed (lines.flatMap gutterLine) := by
  induction lines with
  | nil => decide
  | cons first rest ih =>
      have below := ih fun line member => unclosed line (List.mem_cons_of_mem _ member)
      have space : Unclosed " *".toList := by decide
      rw [List.flatMap_cons, gutterLine]
      split
      · exact space.append_cons below (by decide) (by decide)
      · have here := (unclosed first List.mem_cons_self).append_cons below (c := '\n') (by decide)
          (by decide)
        have line := space.append_cons here (c := ' ') (by decide) (by decide)
        rw [List.append_assoc, List.append_assoc, List.singleton_append]
        exact line

theorem mem_of_mem_intercalate {c : Char} {separator : List Char} {parts : List (List Char)}
    (member : c ∈ separator.intercalate parts)
    : c ∈ separator ∨ ∃ part ∈ parts, c ∈ part := by
  induction parts with
  | nil => cases member
  | cons first rest ih =>
      cases rest with
      | nil => exact .inr ⟨first, List.mem_cons_self, by simpa using member⟩
      | cons second rest =>
          rw [List.intercalate_cons_cons, List.mem_append, List.mem_append] at member
          rcases member with (here | between) | later
          · exact .inr ⟨first, List.mem_cons_self, here⟩
          · exact .inl between
          · exact (ih later).imp_right fun ⟨part, found, inside⟩ =>
              ⟨part, List.mem_cons_of_mem _ found, inside⟩

theorem newline_notMem_oneLine (text : List Char) : '\n' ∉ oneLine text := by
  intro member
  rcases mem_of_mem_intercalate member with space | ⟨part, found, inside⟩
  · revert space
    decide
  · obtain ⟨line, source, rfl⟩ := List.mem_map.mp (List.mem_filter.mp found).1
    exact Text.newline_notMem_of_mem_lines source ((Text.trim_isInfix line).subset inside)

-----------------------------------------------------------------------------------------
-- Delimited comments
-----------------------------------------------------------------------------------------

/-- What follows a comment. -/
def Layout.ending : Layout → List Char
  | .inline => [' ']
  | .block => ['\n']

/-- The fragment is a comment and what follows it in the layout, and the comment is closed only at
its end.
-/
structure Delimited (layout : Layout) (fragment : List Char) : Prop where
  framed : ∃ body, fragment = "/**".toList ++ body ++ "*/".toList ++ layout.ending
  closedOnce : ∀ before after, fragment = before ++ "*/".toList ++ after → after = layout.ending

/-- A delimiter between texts that close no comment is the only one, by induction on the first. -/
theorem eq_of_closes {front before back after : List Char} (left : Unclosed (front ++ ['*']))
    (right : Unclosed ('/' :: back))
    (same : front ++ '*' :: '/' :: back = before ++ '*' :: '/' :: after)
    : back = after := by
  induction front generalizing before with
  | nil =>
      cases before with
      | nil => exact (List.cons.inj (List.cons.inj same).2).2
      | cons first before =>
          have closes := (List.cons.inj same).2
          exact absurd ⟨before, after, by simpa using closes.symm⟩ right
  | cons first front ih =>
      obtain ⟨apart, left⟩ := unclosed_cons_iff.mp left
      cases before with
      | nil =>
          obtain ⟨star, same⟩ := List.cons.inj same
          cases front with
          | nil => cases same
          | cons next front =>
              obtain ⟨slash, _⟩ := List.cons.inj same
              exact absurd (congrArg some slash) (apart star)
      | cons head before => exact ih left (List.cons.inj same).2

/-- A comment whose text closes no comment is delimited, if blanks stand around the text. -/
theorem delimited_of_unclosed (layout : Layout) {c : Char} (unclosed : Unclosed text)
    (noStar : c ≠ '*') (noSlash : c ≠ '/')
    : Delimited layout ("/**".toList ++ c :: (text ++ " */".toList ++ layout.ending)) where
  framed := ⟨c :: (text ++ [' ']), by simp⟩
  closedOnce before after same := by
    have opening : Unclosed "/**".toList := by decide
    have last : Unclosed ['*'] := by decide
    have inner := unclosed.append_cons last (c := ' ') (by decide) (by decide)
    have left : Unclosed ("/**".toList ++ c :: (text ++ [' ']) ++ ['*']) := by
      have whole := opening.append_cons inner noStar noSlash
      simpa using whole
    have right : Unclosed ('/' :: layout.ending) := by cases layout <;> decide
    have closes : ("/**".toList ++ c :: (text ++ [' '])) ++ '*' :: '/' :: layout.ending
        = before ++ '*' :: '/' :: after := by simpa using same
    exact (eq_of_closes left right closes).symm

theorem jsDocComment_delimited (unclosed : Unclosed text) (layout : Layout)
    : Delimited layout (jsDocComment text layout) := by
  cases layout with
  | inline =>
      have comment := delimited_of_unclosed .inline (unclosed_oneLine unclosed) (c := ' ')
        (by decide) (by decide)
      simpa [jsDocComment, Layout.ending] using comment
  | block =>
      have inside : ∀ line ∈ Text.lines text, Unclosed line := fun line member =>
        unclosed.of_isInfix (Text.isInfix_of_mem_lines member)
      rw [jsDocComment]
      split
      · next line split =>
          have here := inside line (split ▸ List.mem_cons_self)
          have comment := delimited_of_unclosed .block here (c := ' ') (by decide) (by decide)
          simpa [Layout.ending] using comment
      · have comment := delimited_of_unclosed .block (unclosed_gutterLines inside) (c := '\n')
          (by decide) (by decide)
        simpa [Layout.ending] using comment

/-- Nothing is written for a comment without text, and a delimited comment for any other. -/
theorem jsDoc_cases (comment : Option String) (layout : Layout)
    : ((∀ text, comment = some text → normalize text.toList = []) ∧ jsDoc comment layout = "")
      ∨ ∃ text,
          comment = some text
          ∧ normalize text.toList ≠ []
          ∧ (jsDoc comment layout).toList
            = jsDocComment (escapeClosing (normalize text.toList)) layout := by
  cases comment with
  | none => exact .inl ⟨nofun, rfl⟩
  | some text =>
      cases normal : normalize text.toList with
      | nil =>
          refine .inl ⟨fun _ found => Option.some.inj found ▸ normal, ?_⟩
          simp [jsDoc, normal]
      | cons c rest =>
          refine .inr ⟨text, rfl, by simp [normal], ?_⟩
          simp [jsDoc, normal]

theorem newline_notMem_jsDoc_inline (comment : Option String)
    : '\n' ∉ (jsDoc comment .inline).toList := by
  rcases jsDoc_cases comment .inline with ⟨_, nothing⟩ | ⟨text, _, _, written⟩
  · rw [nothing]
    decide
  · rw [written, jsDocComment, List.mem_append, List.mem_append]
    rintro ((opening | inside) | closing)
    · revert opening
      decide
    · exact newline_notMem_oneLine _ inside
    · revert closing
      decide

theorem newline_mem_printProperty {field : Schema.Field} {type : String}
    (member : '\n' ∈ (printProperty jsDoc field type).toList)
    : '\n' ∈ field.name.toList ∨ '\n' ∈ type.toList := by
  have mark : '\n' ∉ (optionalMark field).toList := by
    rw [optionalMark]
    split <;> decide
  have comment := newline_notMem_jsDoc_inline field.comment
  simp only [printProperty, String.toList_append, List.mem_append, comment, mark, false_or,
    or_false] at member
  exact member.imp_left (Or.resolve_right · (by decide))

theorem newline_mem_printGroup {message : Schema.Message} {group : String} {types : List String}
    (member : '\n' ∈ (printGroup jsDoc message group types).toList)
    : '\n' ∈ group.toList ∨ ∃ type ∈ types, '\n' ∈ type.toList := by
  have comment := newline_notMem_jsDoc_inline ((message.oneof? group).bind Schema.OneOf.comment)
  simp only [printGroup, String.toList_append, List.mem_append, comment, false_or] at member
  refine member.imp (Or.resolve_right · (by decide)) fun alternatives => ?_
  rw [String.toList_intercalate] at alternatives
  obtain ⟨_, found, inside⟩ := (mem_of_mem_intercalate alternatives).resolve_left (by decide)
  obtain ⟨type, kept, rfl⟩ := List.mem_map.mp found
  exact ⟨type, List.mem_eraseDups.mp kept, inside⟩

theorem newline_mem_printSymbol {enumeration : Schema.Enumeration} {symbol : String}
    (member : '\n' ∈ (printSymbol jsDoc enumeration symbol).toList)
    : '\n' ∈ symbol.toList := by
  have comment := newline_notMem_jsDoc_inline (enumeration.comments.get? symbol)
  simp only [printSymbol, String.toList_append, List.mem_append, comment, false_or] at member
  have equals : '\n' ∉ " = \"".toList := by decide
  have ending : '\n' ∉ "\",".toList := by decide
  simpa only [equals, ending, or_false, or_self] using member

/-- A comment is written as the empty text if it is missing or without text when normalized, and
else as one delimited comment. A comment on a property or an enumeration member adds no line end.
-/
theorem jsDoc_delimited (comment : Option String) (layout : Layout)
    : (jsDoc comment layout = "" ↔ ∀ text, comment = some text → normalize text.toList = [])
      ∧ (jsDoc comment layout ≠ "" → Delimited layout (jsDoc comment layout).toList)
      ∧ '\n' ∉ (jsDoc comment .inline).toList
      ∧ (∀ field type,
          '\n' ∈ (printProperty jsDoc field type).toList
          → '\n' ∈ field.name.toList ∨ '\n' ∈ type.toList)
      ∧ (∀ message group types,
          '\n' ∈ (printGroup jsDoc message group types).toList
          → '\n' ∈ group.toList ∨ ∃ type ∈ types, '\n' ∈ type.toList)
      ∧ (∀ enumeration symbol,
          '\n' ∈ (printSymbol jsDoc enumeration symbol).toList → '\n' ∈ symbol.toList) := by
  refine ⟨?_, ?_, newline_notMem_jsDoc_inline comment, fun _ _ => newline_mem_printProperty,
    fun _ _ _ => newline_mem_printGroup, fun _ _ => newline_mem_printSymbol⟩
  all_goals rcases jsDoc_cases comment layout with ⟨blank, nothing⟩ | ⟨text, found, normal, written⟩
  · exact iff_of_true nothing blank
  · refine iff_of_false (fun nothing => ?_) fun blank => normal (blank text found)
    obtain ⟨body, framed⟩ :=
      (jsDocComment_delimited (unclosed_escapeClosing (normalize text.toList)) layout).framed
    rw [← written, nothing] at framed
    cases framed
  · exact fun shown => absurd nothing shown
  · intro _
    rw [written]
    exact jsDocComment_delimited (unclosed_escapeClosing _) layout

/-- A comment that would be closed inside of a line, at its end and between two lines. -/
def closingText : String :=
  "ends */ with *\n/ and **//"

/-- In both layouts that comment is delimited. -/
theorem closing_text_delimited
    : jsDoc (some closingText) .inline ≠ ""
      ∧ Delimited .inline (jsDoc (some closingText) .inline).toList
      ∧ jsDoc (some closingText) .block ≠ ""
      ∧ Delimited .block (jsDoc (some closingText) .block).toList := by
  have inline : jsDoc (some closingText) .inline ≠ "" := by decide +kernel
  have block : jsDoc (some closingText) .block ≠ "" := by decide +kernel
  exact ⟨inline, (jsDoc_delimited (some closingText) .inline).2.1 inline, block,
    (jsDoc_delimited (some closingText) .block).2.1 block⟩

end ProtoSchema.TypeScript
