import Mathlib.Data.List.TakeWhile
import ProtoSchema.Text.Blank

/-! What trimming removes and keeps. A trimmed text neither starts nor ends with a blank character,
and trimming, from either end, keeps the visible characters of a text in their order.
-/

namespace ProtoSchema.Text

variable {text : List Char}

/-- The characters of a text that are not blank, in order. -/
def visible (text : List Char) : List Char :=
  text.filter fun c => !isBlank c

@[simp] theorem visible_nil : visible [] = [] :=
  rfl

@[simp] theorem visible_append (front back : List Char)
    : visible (front ++ back) = visible front ++ visible back :=
  List.filter_append ..

theorem visible_cons (c : Char) (rest : List Char)
    : visible (c :: rest) = visible [c] ++ visible rest :=
  visible_append [c] rest

theorem visible_eq_nil_iff : visible text = [] ↔ ∀ c ∈ text, isBlank c = true := by
  simp [visible]

theorem visible_eq_nil_iff_all : visible text = [] ↔ text.all isBlank = true := by
  rw [visible_eq_nil_iff, List.all_eq_true]

@[simp] theorem visible_newline : visible ['\n'] = [] := by
  decide

@[simp] theorem visible_space : visible [' '] = [] := by
  decide

/-- The text does not start with a blank character. -/
def StartsVisible (text : List Char) : Prop :=
  ∀ c, text.head? = some c → isBlank c = false

/-- The text does not end with a blank character. -/
def EndsVisible (text : List Char) : Prop :=
  ∀ c, text.getLast? = some c → isBlank c = false

theorem StartsVisible.of_isPrefix {front : List Char} (starts : StartsVisible text)
    (start : front <+: text)
    : StartsVisible front := by
  obtain ⟨back, rfl⟩ := start
  intro c head
  exact starts c (by rw [List.head?_append, head, Option.some_or])

theorem EndsVisible.ne_newline (ends : EndsVisible text) : text.getLast? ≠ some '\n' := by
  intro last
  have visibly := ends _ last
  revert visibly
  decide

theorem trimStart_startsVisible (text : List Char) : StartsVisible (trimStart text) := by
  intro c head
  have stop := List.head?_dropWhile_not isBlank text
  rw [trimStart] at head
  rw [head] at stop
  exact stop

theorem trimEnd_endsVisible (text : List Char) : EndsVisible (trimEnd text) := by
  intro c last
  rw [trimEnd, List.getLast?_reverse] at last
  exact trimStart_startsVisible text.reverse c last

/-- Trimming the start removes blank characters only. -/
theorem takeWhile_append_trimStart (text : List Char)
    : text.takeWhile isBlank ++ trimStart text = text :=
  List.takeWhile_append_dropWhile

/-- Trimming the end removes blank characters only. -/
theorem exists_eq_trimEnd_append (text : List Char)
    : ∃ blanks, (∀ c ∈ blanks, isBlank c = true) ∧ text = trimEnd text ++ blanks := by
  refine ⟨(text.reverse.takeWhile isBlank).reverse, fun c member => ?_, ?_⟩
  · exact List.mem_takeWhile_imp (List.mem_reverse.mp member)
  · rw [trimEnd, ← List.reverse_append, List.takeWhile_append_dropWhile, List.reverse_reverse]

theorem trimEnd_isPrefix (text : List Char) : trimEnd text <+: text := by
  obtain ⟨blanks, _, same⟩ := exists_eq_trimEnd_append text
  exact ⟨blanks, same.symm⟩

theorem trimStart_isSuffix (text : List Char) : trimStart text <:+ text :=
  List.dropWhile_suffix _

theorem trim_isInfix (text : List Char) : trim text <:+: text :=
  (trimEnd_isPrefix _).isInfix.trans (trimStart_isSuffix text).isInfix

theorem trim_startsVisible (text : List Char) : StartsVisible (trim text) :=
  (trimStart_startsVisible text).of_isPrefix (trimEnd_isPrefix _)

theorem trim_endsVisible (text : List Char) : EndsVisible (trim text) :=
  trimEnd_endsVisible _

@[simp] theorem visible_trimStart (text : List Char) : visible (trimStart text) = visible text := by
  have blanks : visible (text.takeWhile isBlank) = [] :=
    visible_eq_nil_iff.mpr fun _ member => List.mem_takeWhile_imp member
  have parts := congrArg visible (takeWhile_append_trimStart text)
  rwa [visible_append, blanks, List.nil_append] at parts

@[simp] theorem visible_trimEnd (text : List Char) : visible (trimEnd text) = visible text := by
  obtain ⟨blanks, allBlank, same⟩ := exists_eq_trimEnd_append text
  have parts := congrArg visible same
  rw [visible_append, visible_eq_nil_iff.mpr allBlank, List.append_nil] at parts
  exact parts.symm

@[simp] theorem visible_trim (text : List Char) : visible (trim text) = visible text := by
  rw [trim, visible_trimEnd, visible_trimStart]

theorem trim_eq_nil_iff : trim text = [] ↔ ∀ c ∈ text, isBlank c = true := by
  rw [← visible_eq_nil_iff, ← visible_trim text]
  refine ⟨fun nothing => by rw [nothing, visible_nil], fun hidden => ?_⟩
  cases found : trim text with
  | nil => rfl
  | cons c rest =>
      have visibly := trim_startsVisible text c (by rw [found, List.head?_cons])
      have blank := visible_eq_nil_iff.mp hidden c (by simp [found])
      cases visibly.symm.trans blank

end ProtoSchema.Text
