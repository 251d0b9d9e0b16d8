/-!
# Faults of a program text

What can be wrong with a line, as causes. The wording is kept apart in `Fault.message`, so that a
statement about a fault speaks of its cause and its payload only. A `SourceError` is a fault with
the line it was found in.
-/

namespace PioKit

/-- The parts of a line that can be missing or out of range. -/
inductive Part where
  /-- What is left of an instruction line when its modifiers are taken away. -/
  | instruction
  /-- The argument of `.program`. -/
  | programName
  /-- The text before the colon of a label line. -/
  | labelName
  /-- The argument of `.side_set`, and the width it declares. -/
  | sideSetWidth
  /-- The address of `jmp`. -/
  | jumpTarget
  /-- The first operand of `wait`. -/
  | waitPolarity
  /-- The number that stands as the first operand of `wait`. -/
  | polarity
  /-- The second operand of `wait`. -/
  | waitSource
  /-- The third operand of `wait`. -/
  | waitIndex
  /-- The first operand of `in`. -/
  | inSource
  /-- The first operand of `out`. -/
  | outDestination
  /-- The second operand of `in` and of `out`. -/
  | bitCount
  /-- The first operand of `mov`. -/
  | movDestination
  /-- The last operand of `mov`. -/
  | movSource
  /-- The number of `irq`. -/
  | irqIndex
  /-- The first operand of `set`. -/
  | setDestination
  /-- The second operand of `set`. -/
  | setValue
  deriving DecidableEq, Repr

/-- The words for a part in a message. -/
def Part.name : Part → String
  | .instruction => "instruction"
  | .programName => "program name"
  | .labelName => "label name"
  | .sideSetWidth => "side-set width"
  | .jumpTarget => "jump target"
  | .waitPolarity => "wait polarity"
  | .polarity => "polarity"
  | .waitSource => "wait source"
  | .waitIndex => "wait index"
  | .inSource => "in source"
  | .outDestination => "out destination"
  | .bitCount => "bit count"
  | .movDestination => "mov destination"
  | .movSource => "mov source"
  | .irqIndex => "irq index"
  | .setDestination => "set destination"
  | .setValue => "set value"

/-- Why a line is refused. -/
inductive Fault where
  /-- A second `.program` with this name. -/
  | duplicateProgram (name : String)
  /-- A `.wrap_target` after an instruction. -/
  | unsupportedWrap
  /-- A delay that is not in `0..max`. -/
  | delayOutOfRange (value max : Int)
  /-- A side-set value that is not in `0..max`. -/
  | sideSetOutOfRange (value max : Int)
  /-- The condition of a `jmp` has no such spelling. -/
  | unknownCondition (name : String)
  /-- A source operand has no such spelling. -/
  | unknownSource (name : String)
  /-- A destination operand has no such spelling. -/
  | unknownDestination (name : String)
  /-- The operator of a `mov` has no such spelling. -/
  | unknownOperator (name : String)
  /-- A number that is not in `min..max`. -/
  | outOfRange (part : Part) (value min max : Int)
  /-- No instruction has this mnemonic. -/
  | unknownInstruction (name : String)
  /-- A jump target that is neither a label nor a number. -/
  | unresolvedLabel (name : String)
  /-- A text that is not an integer literal. -/
  | invalidNumber (text : String)
  /-- A part of the line that is not there. -/
  | missing (part : Part)
  /-- A token after the last operand. -/
  | unexpectedOperand (token : String)
  /-- A line that starts with a dot but is no directive. -/
  | unknownDirective (keyword : String)
  /-- A label that an earlier line defines. -/
  | duplicateLabel (name : String)
  deriving DecidableEq, Repr

/-- The wording of a fault. -/
def Fault.message : Fault → String
  | .duplicateProgram name => s!"multiple programs not supported (second program '{name}')"
  | .unsupportedWrap => ".wrap_target is only supported before the first instruction"
  | .delayOutOfRange value max => s!"delay {value} out of range (max {max})"
  | .sideSetOutOfRange value max => s!"side-set value {value} out of range (max {max})"
  | .unknownCondition name => s!"unknown jump condition '{name}'"
  | .unknownSource name => s!"unknown source '{name}'"
  | .unknownDestination name => s!"unknown destination '{name}'"
  | .unknownOperator name => s!"unknown operator '{name}'"
  | .outOfRange part value min max => s!"{part.name} {value} out of range ({min}..={max})"
  | .unknownInstruction name => s!"unknown instruction '{name}'"
  | .unresolvedLabel name => s!"unresolved label '{name}'"
  | .invalidNumber text => s!"invalid number '{text}'"
  | .missing part => s!"missing {part.name}"
  | .unexpectedOperand token => s!"unexpected operand '{token}'"
  | .unknownDirective keyword => s!"unknown directive '{keyword}'"
  | .duplicateLabel name => s!"label '{name}' already defined"

/-- A fault with the place it was found at. -/
structure SourceError where
  /-- What is wrong. -/
  fault : Fault
  /-- The number of the line, counted from 1. -/
  line : Nat
  /-- The line without its comment and the blanks around it. -/
  text : String
  deriving DecidableEq, Repr

/-- The wording of a fault with its place. -/
def SourceError.message (e : SourceError) : String :=
  s!"line {e.line}: {e.fault.message} ('{e.text}')"

end PioKit
