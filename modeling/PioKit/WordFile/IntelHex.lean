import PioKit.WordFile.Plain

/-!
# Intel HEX

A file is a list of records, one per line: a colon and then bytes as two hexadecimal digits each.
The bytes are the number of data bytes, a 16-bit address (high byte first), the kind of record, the
data and a checksum that makes the sum of all bytes zero.

Writing cuts the words into rows of eight. The writer carries the address from row to row, and within
a row it sums up the bytes as it writes them. Being a 16-bit number, the address starts again at zero
after 64 KiB.

Reading stores the data of each record at its address in a memory image, which grows as far as the
records reach and is zero where none has been. Later records overwrite earlier ones. The words are
those of the image.
-/

namespace PioKit.WordFile.IntelHex

/-! ## Records -/

/-- A record of a file, without its checksum. -/
structure Record where
  /-- Where the data is stored. -/
  address : Word
  /-- The kind of record. -/
  kind : UInt8
  /-- The data bytes. -/
  data : List UInt8
  deriving DecidableEq, Repr

/-- The kind of a record that holds data. -/
def dataKind : UInt8 := 0x00

/-- The kind of the record that ends a file. -/
def endKind : UInt8 := 0x01

namespace Record

/-- The bytes of a record before its checksum. -/
def body (r : Record) : List UInt8 :=
  UInt8.ofNat r.data.length :: r.address.highByte :: r.address.lowByte :: r.kind :: r.data

/-- The byte that makes the sum of all bytes zero. -/
def checksum (r : Record) : UInt8 :=
  0 - r.body.foldl (· + ·) 0

end Record

/-! ## Writing -/

/-- The number of words in a row. -/
def rowLength : Nat := 8

/-- Cuts a list into rows of `size` elements; the last row holds what is left. -/
def rows {α : Type} (size : Nat) (l : List α) : List (List α) :=
  match l with
  | [] => []
  | a :: rest => (a :: rest.take (size - 1)) :: rows size (rest.drop (size - 1))
termination_by l.length
decreasing_by simp only [List.length_cons, List.length_drop]; omega

/-- A byte as two hexadecimal digits. -/
def digits (byte : UInt8) : List Char :=
  Numeral.hex 2 byte.toNat

/-- Writes data bytes and adds each of them to a sum. -/
def writeData (sum : UInt8) : List UInt8 → List Char × UInt8
  | [] => ([], sum)
  | byte :: rest =>
    let (text, sum) := writeData (sum + byte) rest
    (digits byte ++ text, sum)

/-- Writes the data record of a row. The sum begins with the number of bytes and the address, and what
it lacks to zero is the checksum. -/
def writeRow (address : Word) (data : List UInt8) : List Char :=
  let sum := UInt8.ofNat data.length + address.highByte + address.lowByte
  let (text, sum) := writeData sum data
  [':'] ++ Numeral.hex 2 data.length ++ Numeral.hex 4 address.toNat ++ ['0', '0'] ++ text ++
    digits (0 - sum) ++ ['\n']

/-- The record that ends a file. -/
def endLine : List Char :=
  ":00000001FF\n".toList

/-- Writes rows one after the other, with the address going on by the length of each row, and then the
record that ends the file. -/
def writeRows (address : Word) : List (List Word) → List Char
  | [] => endLine
  | row :: rest =>
    let data := Binary.write row
    writeRow address data ++ writeRows (address + BitVec.ofNat 16 data.length) rest

/-- The file of a list of words. -/
def write (words : List Word) : List Char :=
  writeRows 0 (rows rowLength words)

/-! ## Reading -/

/-- Takes the two bytes of text that spell one byte off the front of a record. The record is too
short if it ends before them or if they end inside a character. -/
def takeDigits : List Char → Except Fault (List Char × List Char)
  | [] => .error .shortRecord
  | c :: rest =>
    if c.utf8Size = 2 then .ok ([c], rest)
    else match rest with
      | [] => .error .shortRecord
      | d :: rest =>
        if c.utf8Size = 1 ∧ d.utf8Size = 1 then .ok ([c, d], rest) else .error .shortRecord

/-- Takes one byte off the front of a record. -/
def takeByte (cs : List Char) : Except Fault (UInt8 × List Char) := do
  let (digits, rest) ← takeDigits cs
  return (UInt8.ofNat (← readHex 0xFF digits), rest)

/-- Takes `count` bytes off the front of a record. -/
def takeBytes : Nat → List Char → Except Fault (List UInt8 × List Char)
  | 0, cs => .ok ([], cs)
  | count + 1, cs => do
    let (byte, cs) ← takeByte cs
    let (bytes, cs) ← takeBytes count cs
    return (byte :: bytes, cs)

/-- The record that a text after the colon spells, and the checksum it gives. What follows the
checksum is ignored. -/
def readRecord (cs : List Char) : Except Fault (Record × UInt8) := do
  let (count, cs) ← takeByte cs
  let (high, cs) ← takeByte cs
  let (low, cs) ← takeByte cs
  let (kind, cs) ← takeByte cs
  let (data, cs) ← takeBytes count.toNat cs
  let (checksum, _) ← takeByte cs
  return ({ address := Word.ofBytes low high, kind, data }, checksum)

/-- What a line asks for. -/
inductive Action where
  /-- Nothing: the line is no record. -/
  | skip
  /-- Store data at an address. -/
  | store (address : Nat) (data : List UInt8)
  /-- Stop reading. -/
  | stop
  deriving DecidableEq, Repr

/-- What a record asks for. -/
def Record.action (r : Record) : Except Fault Action :=
  if r.kind = dataKind then .ok (.store r.address.toNat r.data)
  else if r.kind = endKind then .ok .stop
  else .error (.unsupportedRecord r.kind)

/-- What a line asks for. A line that does not start with a colon, blanks apart, is no record. -/
def readLine (line : List Char) : Except Fault Action :=
  match Text.trim line with
  | ':' :: cs => do
    let (record, checksum) ← readRecord cs
    if record.checksum = checksum then
      record.action
    else
      throw (.checksumMismatch (String.ofList (':' :: cs)))
  | _ => .ok .skip

/-- Replaces the bytes of an image from an address on, as far as the image goes. -/
def overwrite (image : Array UInt8) (address : Nat) : List UInt8 → Array UInt8
  | [] => image
  | byte :: rest => overwrite (image.setIfInBounds address byte) (address + 1) rest

/-- Lets an image grow with zeros to `size` bytes, if it is smaller. -/
def grow (image : Array UInt8) (size : Nat) : Array UInt8 :=
  if image.size < size then image ++ Array.replicate (size - image.size) 0 else image

/-- Stores bytes in an image, which first grows up to their address and then as far as they reach. -/
def store (image : Array UInt8) (address : Nat) (data : List UInt8) : Array UInt8 :=
  overwrite (grow (grow image address) (address + data.length)) address data

/-- The image of a list of lines, starting from an image. -/
def readLines (image : Array UInt8) : List (List UInt8) → Except Fault (Array UInt8)
  | [] => .ok image
  | line :: rest =>
    match decodeLine line >>= readLine with
    | .error fault => .error fault
    | .ok .skip => readLines image rest
    | .ok (.store address data) => readLines (store image address data) rest
    | .ok .stop => .ok image

/-- The words of a file. -/
def read (bytes : List UInt8) : Except Fault (List Word) := do
  Binary.read (← readLines #[] (byteLines bytes)).toList

end PioKit.WordFile.IntelHex
