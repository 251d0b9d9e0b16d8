import PioKit.Log
import PioKit.Text.Quoted

/-!
# Program text

A program text is read line by line. What is left of a line without its comment and the blanks
around it is a directive, a label or an instruction; a line of which nothing is left is skipped, but
counts for the numbers of the lines after it. Each line that is read is reported.

An instruction is cut into tokens. Blanks and commas both separate them, alone or in runs, so a comma
between operands is a matter of taste.
-/

namespace PioKit.Source

/-! ## Lines -/

/-- What a line is. -/
inductive Content where
  /-- A line that starts with a dot: its first word, and the words after it. -/
  | directive (keyword : String) (arguments : List String)
  /-- A line that ends with a colon: what stands before it. -/
  | label (name : String)
  /-- Any other line. -/
  | instruction (text : String)
  deriving DecidableEq, Repr

/-- A line of which something is left. -/
structure Line where
  /-- The number of the line, counted from 1. -/
  number : Nat
  /-- The line without its comment and the blanks around it. -/
  text : String
  /-- What the line is. -/
  content : Content
  deriving DecidableEq, Repr

/-- Cuts a text at its first semicolon. -/
def withoutComment (cs : List Char) : List Char :=
  cs.takeWhile (· != ';')

/-- A raw line without its comment and the blanks around it. -/
def strip (raw : List Char) : List Char :=
  Text.trim (withoutComment (Text.trim raw))

/-- A line that ends with a colon is a label, the colon and the blanks before it apart. -/
def labelName? (text : List Char) : Option (List Char) :=
  if text.getLast? = some ':' then some (Text.trim text.dropLast) else none

/-- What a stripped line is. -/
def Content.ofText (text : List Char) : Content :=
  if text.head? = some '.' then
    match Text.words text with
    | [] => .directive (String.ofList text) []
    | keyword :: arguments => .directive (String.ofList keyword) (arguments.map String.ofList)
  else
    match labelName? text with
    | some name => .label (String.ofList name)
    | none => .instruction (String.ofList text)

/-- The line that a raw line amounts to, if anything is left of it. -/
def Line.ofRaw? (raw : List Char) (number : Nat) : Option Line :=
  let text := strip raw
  if text.isEmpty then none
  else some { number, text := String.ofList text, content := Content.ofText text }

/-- A line's content as a report shows it. -/
def Content.describe : Content → String
  | .directive keyword arguments =>
    "Directive \x7b keyword: " ++ Text.quoted keyword ++
      ", args: [" ++ ", ".intercalate (arguments.map Text.quoted) ++ "] \x7d"
  | .label name => "Label(" ++ Text.quoted name ++ ")"
  | .instruction text => "Instruction(" ++ Text.quoted text ++ ")"

/-- Reads a raw line, and reports the line that it amounts to. -/
def readingLine (raw : List Char) (number : Nat) : Logged (Option Line) := do
  match Line.ofRaw? raw number with
  | none => return none
  | some line =>
    Logged.report .trace .reading s!"line {line.number}: {line.content.describe}"
    return some line

/-- Reads the lines of a program text one after the other. -/
def reading (text : String) : Logged (List Line) :=
  ((Text.lines '\n' '\r' text.toList).zipIdx 1).filterMapM fun entry =>
    readingLine entry.1 entry.2

/-- The lines of a program text. -/
def lines (text : String) : List Line :=
  (reading text).result

theorem result_readingLine (raw : List Char) (number : Nat) :
    (readingLine raw number).result = Line.ofRaw? raw number := by
  unfold readingLine
  cases Line.ofRaw? raw number <;> rfl

/-- Reporting apart, every raw line is read on its own. -/
theorem lines_eq_filterMap (text : String) :
    lines text = ((Text.lines '\n' '\r' text.toList).zipIdx 1).filterMap fun entry =>
      Line.ofRaw? entry.1 entry.2 := by
  rw [lines, reading, Logged.result_filterMapM]
  simp only [result_readingLine]

/-! ## Tokens -/

/-- The characters that separate tokens. -/
def isSeparator (c : Char) : Bool :=
  Text.isBlank c || c == ','

/-- The tokens of a text. -/
def tokens (text : String) : List String :=
  (Text.fields isSeparator text.toList).map String.ofList

end PioKit.Source
