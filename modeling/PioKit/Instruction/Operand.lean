/-!
# Operands of the instructions

Each kind of operand is a type of its own with two tables: `code` gives the bits it contributes to
the instruction word, `spellings` the tokens that name it. The codes of a kind leave gaps where the
hardware reserves a value, and two kinds may give one name different codes.
-/

namespace PioKit

/-- When a jump is taken. -/
inductive JumpCondition where
  /-- In every case; this condition has no spelling. -/
  | always
  /-- Scratch register `x` is zero. -/
  | xZero
  /-- Scratch register `x` is not zero before it is decremented. -/
  | xDecrement
  /-- Scratch register `y` is zero. -/
  | yZero
  /-- Scratch register `y` is not zero before it is decremented. -/
  | yDecrement
  /-- The scratch registers differ. -/
  | xNotEqualY
  /-- The branch pin is high. -/
  | pin
  /-- The output shift register is not empty. -/
  | osrNotEmpty
  deriving DecidableEq, Repr

namespace JumpCondition

/-- The three-bit code of a condition. -/
def code : JumpCondition → BitVec 3
  | .always => 0
  | .xZero => 1
  | .xDecrement => 2
  | .yZero => 3
  | .yDecrement => 4
  | .xNotEqualY => 5
  | .pin => 6
  | .osrNotEmpty => 7

/-- The tokens that name an operand of this kind. -/
def spellings : List (String × JumpCondition) :=
  [("!x", .xZero), ("x--", .xDecrement), ("!y", .yZero), ("y--", .yDecrement),
   ("x!=y", .xNotEqualY), ("pin", .pin), ("!osre", .osrNotEmpty)]

/-- The operand that a token names. -/
def ofToken? (token : String) : Option JumpCondition :=
  spellings.lookup token

end JumpCondition

/-- What `wait` looks at. -/
inductive WaitSource where
  /-- A pin by its absolute number. -/
  | gpio
  /-- A pin counted from the input base. -/
  | pin
  /-- An interrupt flag. -/
  | irq
  deriving DecidableEq, Repr

namespace WaitSource

/-- The two-bit code of a wait source. -/
def code : WaitSource → BitVec 2
  | .gpio => 0
  | .pin => 1
  | .irq => 2

/-- The tokens that name an operand of this kind. -/
def spellings : List (String × WaitSource) :=
  [("gpio", .gpio), ("pin", .pin), ("irq", .irq)]

/-- The operand that a token names. -/
def ofToken? (token : String) : Option WaitSource :=
  spellings.lookup token

end WaitSource

/-- Where `in` takes its bits from. -/
inductive ShiftInSource where
  /-- The input pins. -/
  | pins
  /-- Scratch register `x`. -/
  | x
  /-- Scratch register `y`. -/
  | y
  /-- Zeros. -/
  | null
  /-- The input shift register. -/
  | isr
  /-- The output shift register. -/
  | osr
  deriving DecidableEq, Repr

namespace ShiftInSource

/-- The three-bit code of an `in` source. -/
def code : ShiftInSource → BitVec 3
  | .pins => 0
  | .x => 1
  | .y => 2
  | .null => 3
  | .isr => 6
  | .osr => 7

/-- The tokens that name an operand of this kind. -/
def spellings : List (String × ShiftInSource) :=
  [("pins", .pins), ("x", .x), ("y", .y), ("null", .null), ("isr", .isr), ("osr", .osr)]

/-- The operand that a token names. -/
def ofToken? (token : String) : Option ShiftInSource :=
  spellings.lookup token

end ShiftInSource

/-- Where `out` puts its bits. -/
inductive ShiftOutDestination where
  /-- The output pins. -/
  | pins
  /-- Scratch register `x`. -/
  | x
  /-- Scratch register `y`. -/
  | y
  /-- Nowhere. -/
  | null
  /-- The pin directions. -/
  | pindirs
  /-- The program counter. -/
  | pc
  /-- The input shift register. -/
  | isr
  /-- The instruction to execute next. -/
  | exec
  deriving DecidableEq, Repr

namespace ShiftOutDestination

/-- The three-bit code of an `out` destination. -/
def code : ShiftOutDestination → BitVec 3
  | .pins => 0
  | .x => 1
  | .y => 2
  | .null => 3
  | .pindirs => 4
  | .pc => 5
  | .isr => 6
  | .exec => 7

/-- The tokens that name an operand of this kind. -/
def spellings : List (String × ShiftOutDestination) :=
  [("pins", .pins), ("x", .x), ("y", .y), ("null", .null), ("pindirs", .pindirs), ("pc", .pc),
   ("isr", .isr), ("exec", .exec)]

/-- The operand that a token names. -/
def ofToken? (token : String) : Option ShiftOutDestination :=
  spellings.lookup token

end ShiftOutDestination

/-- Where `mov` puts its value. -/
inductive MoveDestination where
  /-- The output pins. -/
  | pins
  /-- Scratch register `x`. -/
  | x
  /-- Scratch register `y`. -/
  | y
  /-- The instruction to execute next. -/
  | exec
  /-- The program counter. -/
  | pc
  /-- The input shift register. -/
  | isr
  /-- The output shift register. -/
  | osr
  deriving DecidableEq, Repr

namespace MoveDestination

/-- The three-bit code of a `mov` destination. -/
def code : MoveDestination → BitVec 3
  | .pins => 0
  | .x => 1
  | .y => 2
  | .exec => 4
  | .pc => 5
  | .isr => 6
  | .osr => 7

/-- The tokens that name an operand of this kind. -/
def spellings : List (String × MoveDestination) :=
  [("pins", .pins), ("x", .x), ("y", .y), ("exec", .exec), ("pc", .pc), ("isr", .isr),
   ("osr", .osr)]

/-- The operand that a token names. -/
def ofToken? (token : String) : Option MoveDestination :=
  spellings.lookup token

end MoveDestination

/-- Where `mov` takes its value from. -/
inductive MoveSource where
  /-- The input pins. -/
  | pins
  /-- Scratch register `x`. -/
  | x
  /-- Scratch register `y`. -/
  | y
  /-- Zeros. -/
  | null
  /-- The status word. -/
  | status
  /-- The input shift register. -/
  | isr
  /-- The output shift register. -/
  | osr
  deriving DecidableEq, Repr

namespace MoveSource

/-- The three-bit code of a `mov` source. -/
def code : MoveSource → BitVec 3
  | .pins => 0
  | .x => 1
  | .y => 2
  | .null => 3
  | .status => 5
  | .isr => 6
  | .osr => 7

/-- The tokens that name an operand of this kind. -/
def spellings : List (String × MoveSource) :=
  [("pins", .pins), ("x", .x), ("y", .y), ("null", .null), ("status", .status), ("isr", .isr),
   ("osr", .osr)]

/-- The operand that a token names. -/
def ofToken? (token : String) : Option MoveSource :=
  spellings.lookup token

end MoveSource

/-- What `mov` does to the value on its way. -/
inductive MoveOperator where
  /-- Every bit is flipped. -/
  | invert
  /-- The order of the bits is reversed. -/
  | reverse
  deriving DecidableEq, Repr

namespace MoveOperator

/-- The two-bit code of an operator; code 0 is a plain copy. -/
def code : MoveOperator → BitVec 2
  | .invert => 1
  | .reverse => 2

/-- The tokens that name an operand of this kind. -/
def spellings : List (String × MoveOperator) :=
  [("~", .invert), ("!", .invert), ("::", .reverse)]

/-- The operand that a token names. -/
def ofToken? (token : String) : Option MoveOperator :=
  spellings.lookup token

end MoveOperator

/-- Where `set` puts its value. -/
inductive SetDestination where
  /-- The set pins. -/
  | pins
  /-- Scratch register `x`. -/
  | x
  /-- Scratch register `y`. -/
  | y
  /-- The pin directions. -/
  | pindirs
  deriving DecidableEq, Repr

namespace SetDestination

/-- The three-bit code of a `set` destination. -/
def code : SetDestination → BitVec 3
  | .pins => 0
  | .x => 1
  | .y => 2
  | .pindirs => 4

/-- The tokens that name an operand of this kind. -/
def spellings : List (String × SetDestination) :=
  [("pins", .pins), ("x", .x), ("y", .y), ("pindirs", .pindirs)]

/-- The operand that a token names. -/
def ofToken? (token : String) : Option SetDestination :=
  spellings.lookup token

end SetDestination

namespace MoveOperator

/-- Splits an operator off the front of a source token: `::` reverses, else one `~` or `!` inverts.
What follows is the source, whatever it is. -/
def splitToken (token : String) : Option MoveOperator × String :=
  match token.toList with
  | ':' :: ':' :: rest => (some .reverse, String.ofList rest)
  | '~' :: rest => (some .invert, String.ofList rest)
  | '!' :: rest => (some .invert, String.ofList rest)
  | _ => (none, token)

/-- The two-bit code of an operator that may be absent. -/
def codeOf : Option MoveOperator → BitVec 2
  | none => 0
  | some operator => operator.code

end MoveOperator

/-- What `irq` does to its flag. -/
inductive IrqMode where
  /-- Raises the flag. -/
  | set
  /-- Raises the flag and waits until it is cleared. -/
  | wait
  /-- Clears the flag. -/
  | clear
  deriving DecidableEq, Repr

namespace IrqMode

/-- The two-bit code of a mode. -/
def code : IrqMode → BitVec 2
  | .set => 0
  | .wait => 1
  | .clear => 2

/-- The mode that a token names. Every token names one: what is neither `wait` nor `clear` raises
the flag. -/
def ofToken (token : String) : IrqMode :=
  if token = "wait" then .wait
  else if token = "clear" then .clear
  else .set

end IrqMode

/-- A number of bits to shift, from 1 to 32. -/
structure BitCount where
  /-- The number. -/
  value : Nat
  /-- At least one bit is shifted. -/
  pos : 1 ≤ value
  /-- No more than a whole register is shifted. -/
  le_register : value ≤ 32
  deriving DecidableEq, Repr

/-- The five-bit code of a bit count, in which 32 is written as 0. -/
def BitCount.code (count : BitCount) : BitVec 5 :=
  BitVec.ofNat 5 count.value

end PioKit
