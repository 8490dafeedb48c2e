/-! Comments in JSON text: two slashes comment out the rest of a line and a slash with a star
everything up to the next star with a slash. Every byte of a comment reads as a space, except the
newline that ends the first kind, so that the bytes outside comments keep their places.
-/

namespace ProtoSchema.Json

/-- What reading the next byte gives; a fault stands for a byte that cannot be read. -/
inductive Reading where
  | byte (value : UInt8)
  | fault
deriving DecidableEq, Repr

def Reading.byte? : Reading → Option UInt8
  | .byte value => some value
  | .fault => none

namespace Comments

/-- Where in the text the next byte stands. -/
inductive Region where
  | outside
  | inText
  | escaped
  | slash
  | line
  | block
  | blockStar
deriving DecidableEq, Repr

/-- The reading of a byte and the region of the byte after it. A slash outside texts must begin a
comment: until its second byte comes, other bytes cannot be read.
-/
def Region.read (byte : UInt8) : Region → Reading × Region
  | .outside =>
      if byte = '"'.toUInt8 then (.byte byte, .inText)
      else if byte = '/'.toUInt8 then (.byte ' '.toUInt8, .slash)
      else (.byte byte, .outside)
  | .inText =>
      if byte = '"'.toUInt8 then (.byte byte, .outside)
      else if byte = '\\'.toUInt8 then (.byte byte, .escaped)
      else (.byte byte, .inText)
  | .escaped => (.byte byte, .inText)
  | .slash =>
      if byte = '/'.toUInt8 then (.byte ' '.toUInt8, .line)
      else if byte = '*'.toUInt8 then (.byte ' '.toUInt8, .block)
      else (.fault, .slash)
  | .line =>
      if byte = '\n'.toUInt8 then (.byte byte, .outside) else (.byte ' '.toUInt8, .line)
  | .block =>
      (.byte ' '.toUInt8, if byte = '*'.toUInt8 then .blockStar else .block)
  | .blockStar =>
      (.byte ' '.toUInt8,
        if byte = '/'.toUInt8 then .outside
        else if byte = '*'.toUInt8 then .blockStar
        else .block)

/-- The text may end here: outside texts and comments, or in a comment that a line end closes. -/
def Region.mayEnd : Region → Bool
  | .outside | .line => true
  | _ => false

/-- The readings of a text that starts in the given region. -/
def readFrom (region : Region) : List UInt8 → List Reading
  | [] => if region.mayEnd then [] else [.fault]
  | byte :: rest => (region.read byte).1 :: readFrom (region.read byte).2 rest

/-- The readings of a whole text. -/
def read (source : List UInt8) : List Reading :=
  readFrom .outside source

end Comments

end ProtoSchema.Json
