import PioKit.Label
import PioKit.Numeral
import PioKit.Source

/-!
# Programs

A program is what the directives, labels and instruction lines of a text amount to before anything
is encoded: its name, its side-set width, its labels and its instructions as text. It is built line
by line, and the first line that does not fit is the one reported. A label is worth the number of
instructions before it, so it can be used before it is defined.
-/

namespace PioKit

/-- An instruction that has not been encoded yet. -/
structure PendingInstruction where
  /-- The number of its line. -/
  line : Nat
  /-- Its text. -/
  text : String
  deriving DecidableEq, Repr

/-- The content of a program text. -/
structure Program where
  /-- The name given by `.program`. -/
  name : Option String
  /-- The width given by the last `.side_set`. -/
  sideSet : Nat
  /-- The labels with the instructions they stand before. -/
  labels : LabelTable
  /-- The instructions in order. -/
  instructions : Array PendingInstruction
  deriving DecidableEq, Repr

namespace Program

/-- The program of an empty text. -/
def empty : Program where
  name := none
  sideSet := 0
  labels := .empty
  instructions := #[]

/-- The largest width that `.side_set` takes. -/
def maxSideSet : Nat := 255

/-- `.program name`: a program is named once. -/
def setName (p : Program) : List String → Except Fault Program
  | [] => .error (.missing .programName)
  | name :: _ =>
    if p.name.isSome then .error (.duplicateProgram name)
    else .ok { p with name := some name }

/-- `.side_set width`: the last one counts. -/
def setSideSet (p : Program) : List String → Except Fault Program
  | [] => .error (.missing .sideSetWidth)
  | token :: _ => do
    let value ← Literal.read token
    if 0 ≤ value ∧ value ≤ maxSideSet then
      return { p with sideSet := value.toNat }
    else
      throw (.outOfRange .sideSetWidth value 0 maxSideSet)

/-- Takes in a directive. Arguments that a directive does not use are ignored. -/
def addDirective (p : Program) (keyword : String) (arguments : List String) :
    Except Fault Program :=
  if keyword = ".program" then p.setName arguments
  else if keyword = ".side_set" then p.setSideSet arguments
  else if keyword = ".wrap_target" then
    if p.instructions.isEmpty then .ok p else .error .unsupportedWrap
  else if keyword = ".wrap" then .ok p
  else .error (.unknownDirective keyword)

/-- Takes in a label. -/
def addLabel (p : Program) (name : String) (line : Nat) : Except Fault Program := do
  if name = "" then
    throw (.missing .labelName)
  let labels ← p.labels.define { name, index := p.instructions.size, line }
  return { p with labels }

/-- Takes in a line. -/
def addContent (p : Program) (line : Nat) : Source.Content → Except Fault Program
  | .directive keyword arguments => p.addDirective keyword arguments
  | .label name => p.addLabel name line
  | .instruction text => .ok { p with instructions := p.instructions.push { line, text } }

/-- Takes in a line, or says where it was refused. -/
def addLine (p : Program) (line : Source.Line) : Except SourceError Program :=
  (p.addContent line.number line.content).mapError fun fault =>
    { fault, line := line.number, text := line.text }

/-- The program that the lines of a text amount to. -/
def ofLines (lines : List Source.Line) : Except SourceError Program :=
  lines.foldlM addLine empty

end Program

end PioKit
