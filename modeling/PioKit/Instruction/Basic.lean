import PioKit.Instruction.Operand
import PioKit.Word

/-!
# Instructions

An instruction is a value of the type `Instruction`, and `Instruction.word` is its 16-bit form. From
the top the word holds the opcode (3 bits), the delay/side-set field (5 bits, zero here) and the
operands (8 bits).

The operands are the concatenation of their codes, except for `wait`: there the source starts at bit
4, below the top bit of the index, and the relative flag is bit 4 too. The codes are combined by
"or", so different `wait` instructions can share a word.

There is no constructor for `nop`: it is the `mov` of scratch register `y` to itself.
-/

namespace PioKit

/-- The words that an instruction line can start with. -/
inductive Mnemonic where
  /-- Jump. -/
  | jmp
  /-- Wait for a level. -/
  | wait
  /-- Shift bits into the input shift register. -/
  | shiftIn
  /-- Shift bits out of the output shift register. -/
  | shiftOut
  /-- Push the input shift register to its queue. -/
  | push
  /-- Pull from the queue to the output shift register. -/
  | pull
  /-- Copy a value. -/
  | mov
  /-- Raise or clear an interrupt flag. -/
  | irq
  /-- Write an immediate value. -/
  | set
  /-- Do nothing for a cycle. -/
  | nop
  deriving DecidableEq, Repr

namespace Mnemonic

/-- The tokens that name a mnemonic. -/
def spellings : List (String × Mnemonic) :=
  [("jmp", .jmp), ("wait", .wait), ("in", .shiftIn), ("out", .shiftOut), ("push", .push),
   ("pull", .pull), ("mov", .mov), ("irq", .irq), ("set", .set), ("nop", .nop)]

/-- The mnemonic that a token names. -/
def ofToken? (token : String) : Option Mnemonic :=
  spellings.lookup token

/-- Bits 13 to 15 of the word. -/
def opcode : Mnemonic → BitVec 3
  | .jmp => 0
  | .wait => 1
  | .shiftIn => 2
  | .shiftOut => 3
  | .push => 4
  | .pull => 4
  | .mov => 5
  | .irq => 6
  | .set => 7
  | .nop => 5

/-- The operand bits that the mnemonic itself fixes. -/
def fixedOperands : Mnemonic → BitVec 8
  | .pull => 0x80
  | .nop => 0x42
  | _ => 0

/-- The word of a mnemonic before any operand is filled in. -/
def template (m : Mnemonic) : Word :=
  m.opcode ++ (0 : BitVec 5) ++ m.fixedOperands

end Mnemonic

/-- An instruction with its operands. -/
inductive Instruction where
  /-- Go to `target` if `condition` holds. -/
  | jmp (condition : JumpCondition) (target : Fin 32)
  /-- Stall until the source `index` has level `polarity`; a relative index is offset by the number
  of the state machine. -/
  | wait (polarity : Fin 2) (source : WaitSource) (index : Fin 32) (relative : Bool)
  /-- Shift `count` bits in. -/
  | shiftIn (source : ShiftInSource) (count : BitCount)
  /-- Shift `count` bits out. -/
  | shiftOut (destination : ShiftOutDestination) (count : BitCount)
  /-- Push, only at the threshold if `conditional`, and stall on a full queue if `blocking`. -/
  | push (conditional blocking : Bool)
  /-- Pull, only at the threshold if `conditional`, and stall on an empty queue if `blocking`. -/
  | pull (conditional blocking : Bool)
  /-- Copy `source` to `destination` through an optional operator. -/
  | mov (destination : MoveDestination) (operator : Option MoveOperator) (source : MoveSource)
  /-- Change interrupt flag `index`, offset by the number of the state machine if `relative`. -/
  | irq (mode : IrqMode) (index : Fin 8) (relative : Bool)
  /-- Write `value` to `destination`. -/
  | set (destination : SetDestination) (value : Fin 32)
  deriving DecidableEq, Repr

namespace Instruction

/-- The instruction that `nop` stands for. -/
def nop : Instruction :=
  .mov .y none .y

/-- The mnemonic of an instruction. -/
def mnemonic : Instruction → Mnemonic
  | .jmp .. => .jmp
  | .wait .. => .wait
  | .shiftIn .. => .shiftIn
  | .shiftOut .. => .shiftOut
  | .push .. => .push
  | .pull .. => .pull
  | .mov .. => .mov
  | .irq .. => .irq
  | .set .. => .set

/-- The operand bits of `wait`, whose fields overlap in bit 4. -/
def waitOperands (polarity : Fin 2) (source : WaitSource) (index : Fin 32) (relative : Bool) :
    BitVec 8 :=
  (BitVec.ofNat 1 polarity ++ (0 : BitVec 7)) |||
  ((0 : BitVec 2) ++ source.code ++ (0 : BitVec 4)) |||
  ((0 : BitVec 3) ++ BitVec.ofNat 5 index) |||
  ((0 : BitVec 3) ++ BitVec.ofBool relative ++ (0 : BitVec 4))

/-- Bits 0 to 7 of the word. -/
def operands : Instruction → BitVec 8
  | .jmp condition target => condition.code ++ BitVec.ofNat 5 target
  | .wait polarity source index relative => waitOperands polarity source index relative
  | .shiftIn source count => source.code ++ count.code
  | .shiftOut destination count => destination.code ++ count.code
  | .push conditional blocking =>
    (0 : BitVec 1) ++ BitVec.ofBool conditional ++ BitVec.ofBool blocking ++ (0 : BitVec 5)
  | .pull conditional blocking =>
    (1 : BitVec 1) ++ BitVec.ofBool conditional ++ BitVec.ofBool blocking ++ (0 : BitVec 5)
  | .mov destination operator source =>
    destination.code ++ MoveOperator.codeOf operator ++ source.code
  | .irq mode index relative =>
    (0 : BitVec 1) ++ mode.code ++ BitVec.ofBool relative ++ (0 : BitVec 1) ++ BitVec.ofNat 3 index
  | .set destination value => destination.code ++ BitVec.ofNat 5 value

/-- The word of an instruction without delay and side-set value. -/
def word (i : Instruction) : Word :=
  i.mnemonic.opcode ++ (0 : BitVec 5) ++ i.operands

end Instruction

end PioKit
