import ProtoSchema.Json.Comments
import ProtoSchema.Json.Numeral
import ProtoSchema.Json.Quoted

/-! Reading a JSON value from text with comments. The parser is a machine that takes one byte at
a time and keeps the containers that are still open on a stack, so that it ends with the text and
the place of an error is the number of bytes that were read.
-/

namespace ProtoSchema.Json.Parser

/-- A container around the value that is being read: the items before it in reverse, or the
members before it and its own key.
-/
inductive Frame where
  | array (items : List Json)
  | object (members : Entries Json) (key : String)

/-- What a text is read for: as a value, or as the next key of an object. -/
inductive Role where
  | value
  | key (members : Entries Json)

/-- What the next byte may be. The innermost container, while none of its values is being read,
is held here and not on the stack.
-/
inductive Control where
  | value
  | arrayStart
  | arrayItem (items : List Json)
  | arrayEnd (items : List Json)
  | objectStart
  | objectKey (members : Entries Json)
  | colon (members : Entries Json) (key : String)
  | objectEnd (members : Entries Json)
  | word (rest : List UInt8) (value : Json)
  | number (scan : Numeral.Scan)
  | text (role : Role) (scan : Quoted.Scan)
  | finished (result : Json)

/-- The machine's state: what comes next, and the containers around it, innermost first. -/
structure State where
  control : Control
  frames : List Frame

def initial : State :=
  ⟨.value, []⟩

/-- The state after a value that stands in the given containers. -/
def complete (value : Json) : List Frame → State
  | [] => ⟨.finished value, []⟩
  | .array items :: outer => ⟨.arrayEnd (value :: items), outer⟩
  | .object members key :: outer => ⟨.objectEnd (Entries.insert key value members), outer⟩

/-- The byte may stand between the parts of a value. -/
def isBlank (byte : UInt8) : Bool :=
  byte = ' '.toUInt8 || byte = '\n'.toUInt8 || byte = '\t'.toUInt8 || byte = '\r'.toUInt8

/-- The state inside a container that opens; containers nest at most 127 deep. -/
def openContainer (control : Control) (frames : List Frame) : Except Cause State :=
  if frames.length + 1 = 128 then .error .tooDeep else .ok ⟨control, frames⟩

/-- The rest of a word after its first byte. -/
def wordRest (word : String) : List UInt8 :=
  (word.toUTF8.toList).drop 1

/-- The state after the first byte of a value. -/
def startValue (frames : List Frame) (byte : UInt8) : Except Cause State :=
  if byte = 'n'.toUInt8 then .ok ⟨.word (wordRest "null") .null, frames⟩
  else if byte = 't'.toUInt8 then .ok ⟨.word (wordRest "true") (.bool true), frames⟩
  else if byte = 'f'.toUInt8 then .ok ⟨.word (wordRest "false") (.bool false), frames⟩
  else if byte = '"'.toUInt8 then .ok ⟨.text .value {}, frames⟩
  else if byte = '['.toUInt8 then openContainer .arrayStart frames
  else if byte = '\x7b'.toUInt8 then openContainer .objectStart frames
  else
    match Numeral.start? byte with
    | some scan => .ok ⟨.number scan, frames⟩
    | none => .error .expectedValue

/-- The next state outside numbers and texts, at a byte that is not blank. -/
def stepMark (frames : List Frame) (byte : UInt8) : Control → Except Cause State
  | .value => startValue frames byte
  | .arrayStart =>
      if byte = ']'.toUInt8 then .ok (complete (.array []) frames)
      else startValue (.array [] :: frames) byte
  | .arrayItem items =>
      if byte = ']'.toUInt8 then .error .trailingComma
      else startValue (.array items :: frames) byte
  | .arrayEnd items =>
      if byte = ','.toUInt8 then .ok ⟨.arrayItem items, frames⟩
      else if byte = ']'.toUInt8 then .ok (complete (.array items.reverse) frames)
      else .error .expectedListEnd
  | .objectStart =>
      if byte = '"'.toUInt8 then .ok ⟨.text (.key []) {}, frames⟩
      else if byte = '\x7d'.toUInt8 then .ok (complete (.object []) frames)
      else .error .keyNotText
  | .objectKey members =>
      if byte = '"'.toUInt8 then .ok ⟨.text (.key members) {}, frames⟩
      else if byte = '\x7d'.toUInt8 then .error .trailingComma
      else .error .keyNotText
  | .colon members key =>
      if byte = ':'.toUInt8 then .ok ⟨.value, .object members key :: frames⟩
      else .error .expectedColon
  | .objectEnd members =>
      if byte = ','.toUInt8 then .ok ⟨.objectKey members, frames⟩
      else if byte = '\x7d'.toUInt8 then .ok (complete (.object members) frames)
      else .error .expectedObjectEnd
  | .word (expected :: rest) value =>
      if byte = expected then
        if rest.isEmpty then .ok (complete value frames) else .ok ⟨.word rest value, frames⟩
      else .error .expectedWord
  | .word [] value => .ok (complete value frames)
  | .number _ | .text _ _ | .finished _ => .error .trailingCharacters

/-- Blanks before the byte are skipped here; inside a word there are none to skip. -/
def Control.skipsBlanks : Control → Bool
  | .word _ _ => false
  | _ => true

/-- The next state outside numbers and texts. -/
def stepBetween (state : State) (byte : UInt8) : Except Cause State :=
  if state.control.skipsBlanks && isBlank byte then .ok state
  else stepMark state.frames byte state.control

/-- The next state. The byte that ends a number is not part of it and is read once more after it.
-/
def step (state : State) (byte : UInt8) : Except Cause State :=
  match state.control with
  | .number scan => do
      match ← scan.read byte with
      | some scan => .ok ⟨.number scan, state.frames⟩
      | none => stepBetween (complete (← scan.finish) state.frames) byte
  | .text role scan => do
      match ← scan.read byte with
      | .more scan => .ok ⟨.text role scan, state.frames⟩
      | .closed content =>
          match role with
          | .value => .ok (complete (.text content) state.frames)
          | .key members => .ok ⟨.colon members content, state.frames⟩
  | _ => stepBetween state byte

/-- The value, if the text may end in this state, or else why it may not. -/
def Control.finish : Control → Except Cause Json
  | .value | .arrayItem _ | .objectKey _ | .word _ _ | .number _ => .error .endInValue
  | .arrayStart | .arrayEnd _ => .error .endInList
  | .objectStart | .colon _ _ | .objectEnd _ => .error .endInObject
  | .text _ _ => .error .endInText
  | .finished result => .ok result

/-- The value at the end of the text. -/
def finish (state : State) : Except Cause Json :=
  match state.control with
  | .number scan => do (complete (← scan.finish) state.frames).control.finish
  | control => control.finish

inductive Container where
  | array
  | object
deriving DecidableEq, Repr

def Frame.container : Frame → Container
  | .array _ => .array
  | .object _ _ => .object

/-- The innermost container that is open. -/
def State.innermost (state : State) : Option Container :=
  match state.control with
  | .arrayStart | .arrayItem _ | .arrayEnd _ => some .array
  | .objectStart | .objectKey _ | .colon _ _ | .objectEnd _ | .text (.key _) _ => some .object
  | .value | .word _ _ | .number _ | .text .value _ => state.frames.head?.map Frame.container
  | .finished _ => none

/-- The number of bytes up to the first one that is not blank, and that byte with what follows it;
an unreadable byte ends the search and does not count.
-/
def skipBlanks : List Reading → Nat × Option (UInt8 × List Reading)
  | [] => (0, none)
  | .fault :: _ => (0, none)
  | .byte byte :: rest =>
      if isBlank byte then
        let (count, found) := skipBlanks rest
        (count + 1, found)
      else (1, some (byte, rest))

/-- The number of bytes that closing a container reads after an unreadable one: up to the next
byte that is not blank, and in a list up to the one after it if that is a comma.
-/
def closingBytes (container : Container) (rest : List Reading) : Nat :=
  match container, skipBlanks rest with
  | .array, (count, some (byte, following)) =>
      if byte = ','.toUInt8 then count + (skipBlanks following).1 else count
  | _, (count, _) => count

/-- What went wrong, and after how many bytes; no number where the place is not known. -/
structure Failure where
  cause : Cause
  consumed : Option Nat
deriving DecidableEq, Repr

/-- Runs the machine on the readings that follow the first `consumed` bytes. -/
def run (state : State) (consumed : Nat) : List Reading → Except Failure Json
  | [] =>
      match finish state with
      | .ok value => .ok value
      | .error cause => .error ⟨cause, some consumed⟩
  | .byte byte :: rest =>
      match step state byte with
      | .ok state => run state (consumed + 1) rest
      | .error cause => .error ⟨cause, some (consumed + 1)⟩
  | .fault :: rest =>
      .error ⟨.unreadable,
        state.innermost.map fun container => consumed + closingBytes container rest⟩

def bytes (readings : List Reading) : List UInt8 :=
  readings.filterMap Reading.byte?

/-- The error with the place that its number of bytes leads to. -/
def Failure.locate (readings : List Reading) (failure : Failure) : SyntaxError where
  cause := failure.cause
  position := failure.consumed.map fun count => Position.after ((bytes readings).take count)

end ProtoSchema.Json.Parser

namespace ProtoSchema.Json

/-- The JSON value that a text with comments writes. -/
def parse (source : List UInt8) : Except SyntaxError Json :=
  let readings := Comments.read source
  (Parser.run Parser.initial 0 readings).mapError (Parser.Failure.locate readings)

end ProtoSchema.Json
