/-!
# Terminal text

Text for a terminal may hold control characters and the sequences that they introduce: escape
sequences, control sequences and control strings. `plain` takes them out and leaves what a reader
would see. Tab, line feed, form feed and carriage return lay text out and stay.

Inside an escape or control sequence a layout character is shown too, and it suspends the sequence:
the text after it is shown up to the next control character, where the sequence goes on.
-/

namespace PioKit.Text.Terminal

/-- What the text before a character has begun and not ended. -/
inductive Sequence where
  /-- Nothing: the characters are text. -/
  | none
  /-- An escape sequence of which only the escape character is read. -/
  | escape
  /-- An escape sequence with intermediate characters, ended by its final character. -/
  | escapeIntermediate
  /-- A control sequence, ended by its final character. -/
  | control
  /-- An operating system command, ended by the bell character. -/
  | command
  /-- A device control string of which only the introducer is read. -/
  | device
  /-- A device control string, in its parameters. -/
  | deviceParameter
  /-- A device control string, in its intermediate characters. -/
  | deviceIntermediate
  /-- The body of a device control string, or another control string; the terminator ends it. -/
  | body
  deriving DecidableEq, Repr

namespace Sequence

/-- Inside these sequences layout characters are shown. -/
def isSuspendable : Sequence → Bool
  | escape | escapeIntermediate | control => true
  | _ => false

end Sequence

/-- Tab, line feed, form feed and carriage return. -/
def isLayout (c : Char) : Bool :=
  c = '\t' || c = '\n' || c = '\x0c' || c = '\r'

/-- Every character but the ASCII control characters and delete. -/
def isGraphic (c : Char) : Bool :=
  0x20 ≤ c.toNat && c.toNat ≠ 0x7F

/-- The byte of the string terminator is among the UTF-8 bytes of the character. -/
def hasTerminator (c : Char) : Bool :=
  (String.utf8EncodeChar c).contains 0x9C

namespace Sequence

/-- The sequence after one more of its characters; other characters leave it as it is. -/
def next (sequence : Sequence) (c : Char) : Sequence :=
  let n := c.toNat
  match sequence with
  | none => none
  | escape =>
    if 0x20 ≤ n && n ≤ 0x2F then escapeIntermediate
    else if c = '[' then control
    else if c = ']' then command
    else if c = 'P' then device
    else if c = 'X' || c = '^' || c = '_' then body
    else if 0x30 ≤ n && n ≤ 0x7E then none
    else escape
  | escapeIntermediate => if 0x30 ≤ n && n ≤ 0x7E then none else escapeIntermediate
  | control => if 0x40 ≤ n && n ≤ 0x7E then none else control
  | command => if c = '\x07' then none else command
  | device =>
    if 0x20 ≤ n && n ≤ 0x2F then deviceIntermediate
    else if 0x30 ≤ n && n ≤ 0x3F then deviceParameter
    else if 0x40 ≤ n && n ≤ 0x7E then body
    else device
  | deviceParameter =>
    if 0x20 ≤ n && n ≤ 0x2F then deviceIntermediate
    else if 0x3C ≤ n && n ≤ 0x7E then body
    else deviceParameter
  | deviceIntermediate => if 0x30 ≤ n && n ≤ 0x7E then body else deviceIntermediate
  | body => if hasTerminator c then none else body

end Sequence

/-- Where a reader of terminal text stands. -/
structure Reader where
  /-- The sequence that is open. -/
  sequence : Sequence
  /-- Whether the sequence is suspended. -/
  suspended : Bool
  deriving DecidableEq, Repr

namespace Reader

/-- The reader before the first character. -/
def start : Reader :=
  ⟨.none, false⟩

/-- The reader takes the next character for text. -/
def inText (reader : Reader) : Bool :=
  reader.sequence = .none || reader.suspended

/-- Whether the next character is shown. -/
def shows (reader : Reader) (c : Char) : Bool :=
  if reader.inText then isGraphic c || isLayout c
  else reader.sequence.isSuspendable && isLayout c

/-- The reader after the next character. Escape begins a sequence, whatever is open; cancel and
substitute end the one that is open, and so does a character beyond ASCII if it is suspended. -/
def next (reader : Reader) (c : Char) : Reader :=
  if c = '\x1b' then ⟨.escape, false⟩
  else if c = '\x18' || c = '\x1a' then start
  else if reader.suspended then
    if 0x80 ≤ c.toNat then start else ⟨reader.sequence, reader.shows c⟩
  else if reader.sequence.isSuspendable && isLayout c then ⟨reader.sequence, true⟩
  else ⟨reader.sequence.next c, false⟩

/-- Reads one character. The characters shown so far are kept with the last one first. -/
def step (state : Reader × List Char) (c : Char) : Reader × List Char :=
  (state.1.next c, if state.1.shows c then c :: state.2 else state.2)

end Reader

/-- The characters that are shown. -/
def plain (text : List Char) : List Char :=
  (text.foldl Reader.step (.start, [])).2.reverse

end PioKit.Text.Terminal
