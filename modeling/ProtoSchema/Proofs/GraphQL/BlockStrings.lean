import ProtoSchema.GraphQL.Printer
import ProtoSchema.Proofs.Text.Lines

/-! Reading block strings. A block string ends at the first three quotes that no backslash stands
before, and its lines lose the indentation they share and the blank ones at both ends. Escaped
quotes are read back up to the closing ones.
-/

namespace ProtoSchema.GraphQL

namespace BlockString

-----------------------------------------------------------------------------------------
-- How a block string is read
-----------------------------------------------------------------------------------------

def isIndentation (c : Char) : Bool :=
  c = ' ' || c = '\t'

def isBlankLine (line : List Char) : Bool :=
  line.all isIndentation

/-- The content up to the closing quotes, and what follows them. A backslash directly before three
quotes makes them part of the content.
-/
def scan : List Char → Option (List Char × List Char)
  | '\\' :: '"' :: '"' :: '"' :: rest =>
      (scan rest).map fun (content, after) => ('"' :: '"' :: '"' :: content, after)
  | '"' :: '"' :: '"' :: rest => some ([], rest)
  | c :: rest => (scan rest).map fun (content, after) => (c :: content, after)
  | [] => none

def indentation (line : List Char) : Nat :=
  (line.takeWhile isIndentation).length

/-- The least indentation of the lines that are not blank; zero if all are. -/
def commonIndentation (lines : List (List Char)) : Nat :=
  ((lines.filter fun line => !isBlankLine line).map indentation).min?.getD 0

/-- The lines after the first lose the indentation that they share. -/
def dedent : List (List Char) → List (List Char)
  | [] => []
  | first :: rest => first :: rest.map (List.drop (commonIndentation rest))

def dropBlankEnds (lines : List (List Char)) : List (List Char) :=
  ((lines.dropWhile isBlankLine).reverse.dropWhile isBlankLine).reverse

/-- The text that the content of a block string stands for. -/
def value (content : List Char) : List Char :=
  Text.joinLines (dropBlankEnds (dedent (content.splitOn '\n')))

/-- The text of the block string that a source starts with, and what follows it. -/
def read (source : List Char) : Option (List Char × List Char) :=
  match source.dropWhile isIndentation with
  | '"' :: '"' :: '"' :: rest => (scan rest).map fun (content, after) => (value content, after)
  | _ => none

end BlockString

open BlockString

-----------------------------------------------------------------------------------------
-- Escaped quotes are read back
-----------------------------------------------------------------------------------------

variable {indent text : List Char}

theorem escapeQuotes_nil : escapeQuotes [] = [] :=
  rfl

theorem escapeQuotes_quotes (rest : List Char)
    : escapeQuotes ('"' :: '"' :: '"' :: rest) = '\\' :: '"' :: '"' :: '"' :: escapeQuotes rest :=
  rfl

/-- A character that does not start three quotes is not escaped. -/
theorem escapeQuotes_cons {c : Char} {rest : List Char}
    (plain : c = '"' → ∀ more, rest ≠ '"' :: '"' :: more)
    : escapeQuotes (c :: rest) = c :: escapeQuotes rest :=
  escapeQuotes.eq_2 c rest fun more quote => plain quote more

/-- Induction along what is escaped in a text: three quotes or nothing. -/
theorem escapeQuotes_induction {motive : List Char → Prop} (nil : motive [])
    (quotes : ∀ rest, motive rest → motive ('"' :: '"' :: '"' :: rest))
    (other
      : ∀ c rest,
          (c = '"' → ∀ more, rest ≠ '"' :: '"' :: more) → motive rest → motive (c :: rest))
    (text : List Char)
    : motive text := by
  induction text using escapeQuotes.induct with
  | case1 rest ih => exact quotes rest ih
  | case2 c rest plain ih => exact other c rest (fun quote more => plain more quote) ih
  | case3 => exact nil

/-- Two quotes before another character stand in what comes before it. -/
theorem exists_eq_quotes_cons {c : Char} {front back more : List Char} (other : c ≠ '"')
    (quotes : front ++ c :: back = '"' :: '"' :: more)
    : ∃ rest, front = '"' :: '"' :: rest := by
  match front, quotes with
  | [], quotes => exact absurd (List.cons.inj quotes).1 other
  | [_], quotes => exact absurd (List.cons.inj (List.cons.inj quotes).2).1 other
  | _ :: _ :: rest, quotes =>
      simp only [List.cons_append, List.cons.injEq] at quotes
      obtain ⟨rfl, rfl, _⟩ := quotes
      exact ⟨rest, rfl⟩

/-- Quotes before another character are escaped apart from those after it. -/
theorem escapeQuotes_append_cons {c : Char} (other : c ≠ '"') (front back : List Char)
    : escapeQuotes (front ++ c :: back) = escapeQuotes front ++ c :: escapeQuotes back := by
  induction front using escapeQuotes_induction with
  | nil => exact escapeQuotes_cons fun same => absurd same other
  | quotes rest ih => simp only [List.cons_append, escapeQuotes_quotes, ih]
  | other first rest plain ih =>
      have stays : first = '"' → ∀ more, rest ++ c :: back ≠ '"' :: '"' :: more := by
        intro quote more quotes
        obtain ⟨rest, rfl⟩ := exists_eq_quotes_cons other quotes
        exact plain quote rest rfl
      rw [List.cons_append, escapeQuotes_cons stays, ih, escapeQuotes_cons plain, List.cons_append]

theorem escapeQuotes_append {front : List Char} (plain : '"' ∉ front) (back : List Char)
    : escapeQuotes (front ++ back) = front ++ escapeQuotes back := by
  induction front with
  | nil => rfl
  | cons c front ih =>
      obtain ⟨other, plain⟩ := not_or.mp (mt List.mem_cons.mpr plain)
      have step := escapeQuotes_append_cons (Ne.symm other) [] (front ++ back)
      rw [List.nil_append, ih plain] at step
      exact step

theorem escapeQuotes_eq_nil_iff : escapeQuotes text = [] ↔ text = [] := by
  cases text using escapeQuotes_induction with
  | nil => exact iff_of_true rfl rfl
  | quotes rest => exact iff_of_false (List.cons_ne_nil _ _) (List.cons_ne_nil _ _)
  | other c rest plain =>
      rw [escapeQuotes_cons plain]
      exact iff_of_false (List.cons_ne_nil _ _) (List.cons_ne_nil _ _)

/-- Escaping adds backslashes only. -/
theorem mem_escapeQuotes_iff {c : Char} (other : c ≠ '\\') : c ∈ escapeQuotes text ↔ c ∈ text := by
  induction text using escapeQuotes_induction with
  | nil => rfl
  | quotes rest ih => simp only [escapeQuotes_quotes, List.mem_cons, other, false_or, ih]
  | other first rest plain ih => rw [escapeQuotes_cons plain, List.mem_cons, List.mem_cons, ih]

theorem getLast?_escapeQuotes : (escapeQuotes text).getLast? = text.getLast? := by
  induction text using escapeQuotes_induction with
  | nil => rfl
  | quotes rest ih => simp only [escapeQuotes_quotes, List.getLast?_cons, ih, Option.getD_some]
  | other first rest plain ih =>
      rw [escapeQuotes_cons plain, List.getLast?_cons, List.getLast?_cons, ih]

/-- A quote that is not escaped is a quote of the text. -/
theorem exists_eq_quote_cons {c : Char} {after rest : List Char} (other : c ≠ '"')
    (quote : escapeQuotes text ++ c :: after = '"' :: rest)
    : ∃ more, text = '"' :: more ∧ escapeQuotes more ++ c :: after = rest := by
  cases text using escapeQuotes_induction with
  | nil => exact absurd (List.cons.inj quote).1 other
  | quotes more => cases quote
  | other first more plain =>
      rw [escapeQuotes_cons plain] at quote
      obtain ⟨rfl, same⟩ := List.cons.inj quote
      exact ⟨more, rfl, same⟩

/-- Three quotes in a row are escaped. -/
theorem escapeQuotes_append_ne_quotes {c : Char} {after rest : List Char} (other : c ≠ '"')
    : escapeQuotes text ++ c :: after ≠ '"' :: '"' :: '"' :: rest := by
  intro quotes
  obtain ⟨first, rfl, second⟩ := exists_eq_quote_cons other quotes
  obtain ⟨second, rfl, third⟩ := exists_eq_quote_cons other second
  obtain ⟨third, rfl, _⟩ := exists_eq_quote_cons other third
  cases quotes

theorem scan_escaped (rest : List Char)
    : scan ('\\' :: '"' :: '"' :: '"' :: rest)
      = (scan rest).map fun (content, after) => ('"' :: '"' :: '"' :: content, after) :=
  rfl

/-- A character that starts neither escaped nor closing quotes is content. -/
theorem scan_cons {c : Char} {rest : List Char}
    (noEscape : c = '\\' → ∀ more, rest ≠ '"' :: '"' :: '"' :: more)
    (noClosing : c = '"' → ∀ more, rest ≠ '"' :: '"' :: more)
    : scan (c :: rest) = (scan rest).map fun (content, after) => (c :: content, after) :=
  scan.eq_3 c rest (fun more same => noEscape same more) fun more same => noClosing same more

/-- A scan reads an escaped text back, by induction on the text, if what follows it does not start
with a quote.
-/
theorem scan_escapeQuotes {c : Char} (other : c ≠ '"') (text after : List Char)
    : scan (escapeQuotes text ++ c :: after)
      = (scan (c :: after)).map fun (content, rest) => (text ++ content, rest) := by
  induction text using escapeQuotes_induction with
  | nil =>
      rw [escapeQuotes_nil, List.nil_append]
      cases scan (c :: after) <;> rfl
  | quotes rest ih =>
      simp only [escapeQuotes_quotes, List.cons_append, scan_escaped, ih, Option.map_map]
      rfl
  | other first rest plain ih =>
      have noClosing
          : first = '"' → ∀ more, escapeQuotes rest ++ c :: after ≠ '"' :: '"' :: more := by
        intro quote more quotes
        obtain ⟨_, rfl, second⟩ := exists_eq_quote_cons other quotes
        obtain ⟨_, rfl, _⟩ := exists_eq_quote_cons other second
        exact plain quote _ rfl
      rw [escapeQuotes_cons plain, List.cons_append,
        scan_cons (fun _ _ => escapeQuotes_append_ne_quotes other) noClosing, ih, Option.map_map]
      rfl

/-- A scan reads an escaped text back up to closing quotes, if the text ends neither with a quote
nor with a backslash.
-/
theorem scan_closed {last : Char} (noQuote : last ≠ '"') (noBackslash : last ≠ '\\')
    (text after : List Char)
    : scan (escapeQuotes (text ++ [last]) ++ blockQuotes ++ after)
      = some (text ++ [last], after) := by
  have closing : scan (last :: (blockQuotes ++ after)) = some ([last], after) := by
    rw [scan_cons (fun same => absurd same noBackslash) fun same => absurd same noQuote]
    rfl
  rw [escapeQuotes_append_cons noQuote, escapeQuotes_nil, List.append_assoc, List.append_assoc,
    List.singleton_append, scan_escapeQuotes noQuote, closing]
  rfl

end ProtoSchema.GraphQL
