/-!
# Text

Text is a list of characters, cut into parts at blanks, at marks and at line ends, and made of bytes
in a file.

A property of characters is kept as a table of code point ranges in ascending order. What separates
words and may stand around a line are the characters with the Unicode property `White_Space`. The
zero width space, the byte order mark and the information separators U+001C to U+001F are not among
them.
-/

namespace PioKit.Text

/-! ## Sets of characters -/

/-- Inclusive ranges of code points. -/
abbrev Ranges := List (Nat × Nat)

/-- Looks a character up in an ascending table, up to the first range that does not lie below it. -/
def Ranges.covers : Ranges → Char → Bool
  | [], _ => false
  | range :: rest, c => if c.toNat ≤ range.2 then range.1 ≤ c.toNat else covers rest c

/-- The code points with the property `White_Space`. -/
def blankRanges : Ranges :=
  [(0x0009, 0x000D), (0x0020, 0x0020), (0x0085, 0x0085), (0x00A0, 0x00A0), (0x1680, 0x1680),
   (0x2000, 0x200A), (0x2028, 0x2029), (0x202F, 0x202F), (0x205F, 0x205F), (0x3000, 0x3000)]

/-- A character with the property `White_Space`. -/
def isBlank (c : Char) : Bool :=
  blankRanges.covers c

/-! ## Cutting text into parts

Text is cut as a list: of characters for source text, of bytes for word files, which is why `lines`
is stated over any element type. Everything rests on `List.splitOnP`, which keeps the empty pieces;
`fields` then drops them and `lines` reads them as line ends.
-/

section Parts

variable {α : Type}

/-- Drops the longest run of elements satisfying `p` from the end of a list. -/
def dropEndWhile (p : α → Bool) (l : List α) : List α :=
  (l.reverse.dropWhile p).reverse

/-- Removes the blanks at both ends. -/
def trim (cs : List Char) : List Char :=
  dropEndWhile isBlank (cs.dropWhile isBlank)

/-- The non-empty parts between the elements that satisfy `p`. -/
def fields (p : α → Bool) (l : List α) : List (List α) :=
  (l.splitOnP p).filter fun part => !part.isEmpty

@[simp] theorem fields_nil (p : α → Bool) : fields p ([] : List α) = [] := rfl

/-- A separator cuts the fields of a list in two. -/
theorem fields_append_cons {p : α → Bool} {sep : α} (h : p sep = true) (l r : List α) :
    fields p (l ++ sep :: r) = fields p l ++ fields p r := by
  rw [fields, List.splitOnP_append_cons l r h, List.filter_append]
  rfl

/-- The parts of a text between blanks. -/
def words (cs : List Char) : List (List Char) :=
  fields isBlank cs

/-- Removes one `mark` from the end of a list, if it is there. -/
def chomp [BEq α] (mark : α) (l : List α) : List α :=
  if l.getLast? == some mark then l.dropLast else l

/-- The lines of a text. A line ends at `feed`, and one `ret` directly before that `feed` belongs to
the line end. What follows the last `feed` is a line only if it is not empty; it keeps its `ret`. -/
def lines [BEq α] (feed ret : α) (text : List α) : List (List α) :=
  let pieces := text.splitOn feed
  let last := pieces.getLastD []
  pieces.dropLast.map (chomp ret) ++ if last.isEmpty then [] else [last]

end Parts

/-! ## Text as bytes

The UTF-8 form of a text, and its partial inverse. Decoding accepts exactly the images of `encode`:
surrogates, overlong forms and truncated sequences have no text.
-/

namespace Utf8

/-- The UTF-8 bytes of a text. -/
def encode (cs : List Char) : List UInt8 :=
  cs.flatMap String.utf8EncodeChar

/-- The text whose UTF-8 bytes are given, if there is one. -/
def decode? (bytes : List UInt8) : Option (List Char) :=
  (String.fromUTF8? bytes.toByteArray).map String.toList

end Utf8

end PioKit.Text
