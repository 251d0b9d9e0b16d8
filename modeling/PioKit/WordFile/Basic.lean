import PioKit.Numeral
import PioKit.Text.Basic

/-!
# Formats and faults of word files

The ways in which a list of words can be stored, with the names by which a format is chosen and the
file extension that goes with it; why the bytes of a file do not spell a list of words, and why a list
of words could not be written.
-/

namespace PioKit.WordFile

/-! ## Formats -/

/-- A way to store a list of words. -/
inductive Format where
  /-- Two bytes per word, the low byte first. -/
  | binary
  /-- Intel HEX records. -/
  | hex
  /-- One line per word with its index. -/
  | text
  /-- One hexadecimal literal per word, each followed by a comma. -/
  | array
  deriving DecidableEq, Repr

namespace Format

/-- All formats. -/
def all : List Format :=
  [.binary, .hex, .text, .array]

/-- The name by which a format is chosen. -/
def name : Format → String
  | .binary => "binary"
  | .hex => "hex"
  | .text => "text"
  | .array => "array"

/-- The extension of a file in the format, without its dot. -/
def extension : Format → String
  | .binary => "bin"
  | .hex => "hex"
  | .text => "txt"
  | .array => "array"

/-- A text with its ASCII capitals made small. -/
def foldCase (text : String) : List Char :=
  text.toList.map Char.toLower

/-- The format of the given name; the case of ASCII letters counts unless `ignoreCase`. -/
def ofName? (ignoreCase : Bool) (name : String) : Option Format :=
  all.find? fun format =>
    if ignoreCase then foldCase format.name == foldCase name else format.name == name

end Format

/-! ## Faults -/

/-- Why bytes do not spell a list of words. -/
inductive Fault where
  /-- The bytes cannot be paired. -/
  | oddSize
  /-- A line is not UTF-8 text. -/
  | notText
  /-- A record ends before all of its bytes are given. -/
  | shortRecord
  /-- The bytes of a record do not sum up to zero. -/
  | checksumMismatch (line : String)
  /-- A record is neither data nor the end of the file. -/
  | unsupportedRecord (kind : UInt8)
  /-- A line has no colon between index and word. -/
  | malformedLine (line : String)
  /-- A line does not have the index of its word. -/
  | unexpectedIndex (index : Nat)
  /-- A literal does not start with `0x`. -/
  | malformedLiteral (literal : String)
  /-- A number cannot be read. -/
  | numeral (fault : Numeral.Fault)
  deriving DecidableEq, Repr

/-- The wording of a fault. -/
def Fault.message : Fault → String
  | .oddSize => "Binary size is not a multiple of 2 bytes"
  | .notText => "stream did not contain valid UTF-8"
  | .shortRecord => "Record too short"
  | .checksumMismatch line => s!"Checksum mismatch in record: {line}"
  | .unsupportedRecord kind =>
    "Unsupported record type " ++ String.ofList (Numeral.hex 2 kind.toNat)
  | .malformedLine line => s!"Invalid text format line: {line}"
  | .unexpectedIndex index => "Unexpected index " ++ String.ofList (Numeral.hex 4 index)
  | .malformedLiteral literal => s!"Invalid word literal: {literal}"
  | .numeral fault => fault.message

/-- The value of a hexadecimal numeral that is at most `limit`. -/
def readHex (limit : Nat) (cs : List Char) : Except Fault Nat :=
  (Numeral.readUnsigned 16 limit cs).mapError Fault.numeral

/-- Why a list of words could not be written. -/
inductive WriteFault where
  /-- The bytes do not fit into the space there is. -/
  | bufferFull
  deriving DecidableEq, Repr

/-- The wording of a write fault. -/
def WriteFault.message : WriteFault → String
  | .bufferFull => "failed to write whole buffer"

/-! ## Lines

The text formats are read line by line: bytes are cut into lines first and each line is decoded when
its turn comes. So a line that is not text is a fault only if no earlier line is one, and no fault
at all if the reader has stopped before it.
-/

/-- The lines of a file, still as bytes. -/
def byteLines (bytes : List UInt8) : List (List UInt8) :=
  Text.lines 0x0A 0x0D bytes

/-- The characters of a line. -/
def decodeLine (line : List UInt8) : Except Fault (List Char) :=
  match Text.Utf8.decode? line with
  | some cs => .ok cs
  | none => .error .notText

end PioKit.WordFile
