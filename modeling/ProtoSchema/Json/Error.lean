/-! Errors in JSON text: what is wrong, and how far the text had been read when it was noticed. -/

namespace ProtoSchema.Json

/-- What is wrong with a JSON text. -/
inductive Cause where
  | endInList
  | endInObject
  | endInText
  | endInValue
  | expectedColon
  | expectedListEnd
  | expectedObjectEnd
  | expectedWord
  | expectedValue
  | invalidEscape
  | invalidNumber
  | numberOutOfRange
  | invalidCodePoint
  | controlCharacter
  | keyNotText
  | loneSurrogate
  | trailingComma
  | trailingCharacters
  | endOfHexEscape
  | tooDeep
  | unreadable
deriving DecidableEq, Repr

def Cause.message : Cause → String
  | .endInList => "EOF while parsing a list"
  | .endInObject => "EOF while parsing an object"
  | .endInText => "EOF while parsing a string"
  | .endInValue => "EOF while parsing a value"
  | .expectedColon => "expected `:`"
  | .expectedListEnd => "expected `,` or `]`"
  | .expectedObjectEnd => "expected `,` or `\x7d`"
  | .expectedWord => "expected ident"
  | .expectedValue => "expected value"
  | .invalidEscape => "invalid escape"
  | .invalidNumber => "invalid number"
  | .numberOutOfRange => "number out of range"
  | .invalidCodePoint => "invalid unicode code point"
  | .controlCharacter => "control character (\\u0000-\\u001F) found while parsing a string"
  | .keyNotText => "key must be a string"
  | .loneSurrogate => "lone leading surrogate in hex escape"
  | .trailingComma => "trailing comma"
  | .trailingCharacters => "trailing characters"
  | .endOfHexEscape => "unexpected end of hex escape"
  | .tooDeep => "recursion limit exceeded"
  | .unreadable => "invalid data"

/-- A place in a text: the line, counted from one, and the number of bytes read of that line. -/
structure Position where
  line : Nat
  column : Nat
deriving DecidableEq, Repr

namespace Position

def start : Position :=
  ⟨1, 0⟩

/-- The place after one more byte. -/
def next (position : Position) (byte : UInt8) : Position :=
  if byte = '\n'.toUInt8 then ⟨position.line + 1, 0⟩
  else ⟨position.line, position.column + 1⟩

/-- The place after the given bytes of a text. -/
def after (bytes : List UInt8) : Position :=
  bytes.foldl next start

/-- The number of bytes in the first lines of a text, line ends included. -/
def lineBytes : Nat → List UInt8 → Nat
  | 0, _ => 0
  | _ + 1, [] => 0
  | count + 1, byte :: rest =>
      1 + lineBytes (if byte = '\n'.toUInt8 then count else count + 1) rest

/-- The offset of the byte that was read last when this place was reached, within the text. -/
def offset (position : Position) (source : List UInt8) : Nat :=
  min (lineBytes (position.line - 1) source + (position.column - 1)) source.length

end Position

/-- An error and its place; an unreadable byte outside every container has no place. -/
structure SyntaxError where
  cause : Cause
  position : Option Position
deriving DecidableEq, Repr

namespace SyntaxError

/-- The text of an error, with its place if it has one. -/
def message (error : SyntaxError) : String :=
  match error.position with
  | some position =>
      s!"{error.cause.message} at line {position.line} column {position.column}"
  | none => error.cause.message

/-- The offset of the byte that an error points at; the first one if it has no place. -/
def offset (error : SyntaxError) (source : List UInt8) : Nat :=
  match error.position with
  | some position => position.offset source
  | none => 0

/-- The number of bytes that an error points at: one, or none at the end of the text. -/
def length (error : SyntaxError) (source : List UInt8) : Nat :=
  if error.offset source < source.length then 1 else 0

end SyntaxError

end ProtoSchema.Json
