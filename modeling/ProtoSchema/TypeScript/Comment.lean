import ProtoSchema.Text.Blank
import ProtoSchema.Text.Lines

/-! Comments on generated declarations. A comment may still carry the stars or the indentation of
the block it was lifted from, which are stripped before it is written as a JSDoc comment.
-/

namespace ProtoSchema.TypeScript

/-- Where a comment stands: before a property on its line, or on lines of its own. -/
inductive Layout where
  | inline
  | block
deriving DecidableEq, Repr

/-- How an optional comment is written in each layout. -/
abbrev CommentStyle :=
  Option String → Layout → String

/-- Every line that is not blank starts with a star after its indentation. -/
def isStarred (lines : List (List Char)) : Bool :=
  lines.all fun line =>
    match Text.trimStart line with
    | [] => true
    | c :: _ => c = '*'

/-- A line without its indentation, its stars, one space after them and its blank ending. -/
def stripStars (line : List Char) : List Char :=
  match (Text.trimStart line).dropWhile (· = '*') with
  | ' ' :: rest => Text.trimEnd rest
  | rest => Text.trimEnd rest

/-- The number of bytes by which a line is indented. -/
def indentation (line : List Char) : Nat :=
  Text.byteSize line - Text.byteSize (Text.trimStart line)

/-- The least indentation of the lines that are not blank; zero if all are. -/
def commonIndentation (lines : List (List Char)) : Nat :=
  ((lines.filter fun line => !line.all Text.isBlank).map indentation).min?.getD 0

/-- A line without that many bytes of indentation and without its blank ending. A line whose
indentation cannot be cut there loses all of it.
-/
def dedent (indent : Nat) (line : List Char) : List Char :=
  if line.all Text.isBlank then []
  else Text.trimEnd ((Text.dropBytes? indent line).getD (Text.trimStart line))

/-- The lines after the first lose their common indentation; that of the first is trimmed off. -/
def dedentLines : List (List Char) → List (List Char)
  | [] => []
  | first :: rest => Text.trimEnd first :: rest.map (dedent (commonIndentation rest))

/-- A comment without stars, common indentation and blank ends. -/
def normalize (comment : List Char) : List Char :=
  let lines := Text.lines (Text.trim comment)
  if isStarred lines then Text.trim (Text.joinLines (lines.map stripStars))
  else Text.joinLines (dedentLines lines)

/-- A star before a slash would close the comment; a backslash between them prevents it. -/
def escapeClosing : List Char → List Char
  | '*' :: '/' :: rest => '*' :: '\\' :: '/' :: escapeClosing rest
  | c :: rest => c :: escapeClosing rest
  | [] => []

/-- The lines of a text joined on one, without those that are blank. -/
def oneLine (text : List Char) : List Char :=
  List.intercalate [' ']
    (((Text.lines text).map Text.trim).filter fun line => !line.isEmpty)

def gutterLine (line : List Char) : List Char :=
  if line.isEmpty then " *\n".toList else " * ".toList ++ line ++ ['\n']

/-- A JSDoc comment of the given text. -/
def jsDocComment (text : List Char) : Layout → List Char
  | .inline => "/** ".toList ++ oneLine text ++ " */ ".toList
  | .block =>
      match Text.lines text with
      | [line] => "/** ".toList ++ line ++ " */\n".toList
      | lines => "/**\n".toList ++ lines.flatMap gutterLine ++ " */\n".toList

/-- Comments in the form of JSDoc; none where there is no comment or only a blank one. -/
def jsDoc : CommentStyle := fun comment layout =>
  match comment.map fun text => normalize text.toList with
  | none | some [] => ""
  | some text => .ofList (jsDocComment (escapeClosing text) layout)

end ProtoSchema.TypeScript
