import PioKit.Word
import PioKit.WordFile.Basic

/-!
# Plain word files

The formats that hold one word after the other: as bytes, as a listing with indices, and as literals.
-/

namespace PioKit.WordFile

/-! ## Binary files

Two bytes per word, the low byte first, and nothing else.
-/

namespace Binary

/-- The bytes of a list of words. -/
def write (words : List Word) : List UInt8 :=
  words.flatMap Word.bytes

/-- Appends the words of paired bytes to `words`; an odd byte at the end is left over. -/
def appendPairs (words : Array Word) : List UInt8 → Array Word
  | low :: high :: rest => appendPairs (words.push (Word.ofBytes low high)) rest
  | _ => words

/-- The words of an even number of bytes. -/
def read (bytes : List UInt8) : Except Fault (List Word) :=
  if bytes.length % 2 = 0 then
    .ok (appendPairs #[] bytes).toList
  else
    .error .oddSize

end Binary

/-! ## Listings

One line per word: its index and the word, both in hexadecimal. The reader insists on the indices,
so a lost, repeated or misplaced line is noticed. Lines of blanks are skipped.
-/

namespace Listing

/-- The line of a word, with its line end. -/
def line (index : Nat) (word : Word) : List Char :=
  Numeral.hex 4 index ++ [':', ' '] ++ Numeral.hex 4 word.toNat ++ ['\n']

/-- The lines of a list of words. -/
def write (words : List Word) : List Char :=
  words.zipIdx.flatMap fun (word, index) => line index word

/-- The largest index that a line can name. -/
def maxIndex : Nat := 0xFFFFFFFFFFFFFFFF

/-- Index and word of a line, as text: what stands before and after its first colon. -/
def split? (line : List Char) : Option (List Char × List Char) :=
  match line.dropWhile (· != ':') with
  | _ :: rest => some (line.takeWhile (· != ':'), rest)
  | [] => none

/-- The word of a line that must have the given index. -/
def readWord (index : Nat) (line : List Char) : Except Fault Word := do
  match split? line with
  | none => throw (.malformedLine (String.ofList line))
  | some (left, right) =>
    let found ← readHex maxIndex (Text.trim left)
    if found = index then
      return BitVec.ofNat 16 (← readHex 0xFFFF (Text.trim right))
    else
      throw (.unexpectedIndex found)

/-- Takes in one line after the words of the lines before it. -/
def readLine (words : Array Word) (line : List UInt8) : Except Fault (Array Word) := do
  let line ← decodeLine line
  if (Text.trim line).isEmpty then
    return words
  else
    return words.push (← readWord words.size line)

/-- The words of a listing. -/
def read (bytes : List UInt8) : Except Fault (List Word) := do
  return (← (byteLines bytes).foldlM readLine #[]).toList

end Listing

/-! ## Word literals

Words as hexadecimal literals with commas between them, ready to stand in an array of a program. On
reading, lines and blanks around a literal do not matter.
-/

namespace Literals

/-- The literal of a word, with its comma and line end. -/
def literal (word : Word) : List Char :=
  ['0', 'x'] ++ Numeral.hex 4 word.toNat ++ [',', '\n']

/-- The literals of a list of words. -/
def write (words : List Word) : List Char :=
  words.flatMap literal

/-- The literals of a line: what stands between its commas, if it is not blank. -/
def ofLine (line : List Char) : List (List Char) :=
  ((line.splitOn ',').map Text.trim).filter fun part => !part.isEmpty

/-- Takes in one literal after the words before it. -/
def readLiteral (words : Array Word) (literal : List Char) : Except Fault (Array Word) :=
  match literal with
  | '0' :: 'x' :: digits => do
    return words.push (BitVec.ofNat 16 (← readHex 0xFFFF digits))
  | _ => .error (.malformedLiteral (String.ofList literal))

/-- Takes in one line after the words of the lines before it. -/
def readLine (words : Array Word) (line : List UInt8) : Except Fault (Array Word) := do
  (ofLine (← decodeLine line)).foldlM readLiteral words

/-- The words of a list of literals. -/
def read (bytes : List UInt8) : Except Fault (List Word) := do
  return (← (byteLines bytes).foldlM readLine #[]).toList

end Literals

end PioKit.WordFile
