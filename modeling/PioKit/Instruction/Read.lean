import PioKit.Instruction.Basic
import PioKit.Label
import PioKit.Numeral

/-!
# Reading an instruction from its tokens

An instruction line starts with a mnemonic, and each mnemonic has its own list of operands. Operands
are checked from left to right and the first fault is the one reported; a token too many is reported
after the operands before it, except where the number of tokens decides how they are read (`jmp`,
`irq` and the source of `mov`).
-/

namespace PioKit.Instruction

/-! ## Single operands -/

/-- Takes the next token, which is the given part of the instruction. -/
def next (part : Part) : List String → Except Fault (String × List String)
  | [] => .error (.missing part)
  | token :: rest => .ok (token, rest)

/-- There must be no token left. -/
def finish : List String → Except Fault Unit
  | [] => .ok ()
  | token :: _ => .error (.unexpectedOperand token)

/-- The operand that a token names, or the fault for an unknown name. -/
def named {α : Type} (ofToken? : String → Option α) (unknown : String → Fault) (token : String) :
    Except Fault α :=
  match ofToken? token with
  | some operand => .ok operand
  | none => .error (unknown token)

/-- A value as a number below `bound`. -/
def below (part : Part) (bound : Nat) (value : Int) : Except Fault (Fin bound) :=
  if h : 0 ≤ value ∧ value < bound then
    .ok ⟨value.toNat, by omega⟩
  else
    .error (.outOfRange part value 0 (bound - 1))

/-- The number below `bound` that a token spells. -/
def numberBelow (part : Part) (bound : Nat) (token : String) : Except Fault (Fin bound) := do
  below part bound (← Literal.read token)

/-- The bit count that a token spells. -/
def bitCount (token : String) : Except Fault BitCount := do
  let value ← Literal.read token
  if h : 1 ≤ value ∧ value ≤ 32 then
    return ⟨value.toNat, by omega, by omega⟩
  else
    throw (.outOfRange .bitCount value 1 32)

/-- An instruction index as a signed 64-bit number: the upper half of the range is negative. -/
def signedIndex (index : Nat) : Int :=
  Int.bmod index 0x10000000000000000

/-- The address that a jump target stands for. A label goes before a number of the same spelling. -/
def address (labels : LabelTable) (target : String) : Except Fault (Fin 32) := do
  let value ← match labels.address? target, Literal.parse? target with
    | some index, _ => pure (signedIndex index)
    | none, some value => pure value
    | none, none => throw (.unresolvedLabel target)
  below .jumpTarget 32 value

/-! ## The operands of each mnemonic -/

/-- `jmp [condition] target` -/
def readJmp (labels : LabelTable) : List String → Except Fault Instruction
  | [] => .error (.missing .jumpTarget)
  | [target] => do
    return .jmp .always (← address labels target)
  | [condition, target] => do
    let condition ← named JumpCondition.ofToken? .unknownCondition condition
    return .jmp condition (← address labels target)
  | _ :: _ :: token :: _ => .error (.unexpectedOperand token)

/-- `wait polarity source index [rel]` -/
def readWait (tokens : List String) : Except Fault Instruction := do
  let (polarity, tokens) ← next .waitPolarity tokens
  let polarity ← numberBelow .polarity 2 polarity
  let (source, tokens) ← next .waitSource tokens
  let source ← named WaitSource.ofToken? .unknownSource source
  let (index, tokens) ← next .waitIndex tokens
  let index ← numberBelow .waitIndex 32 index
  if tokens.head? = some "rel" then
    finish tokens.tail
    return .wait polarity source index true
  else
    finish tokens
    return .wait polarity source index false

/-- `in source count` -/
def readIn (tokens : List String) : Except Fault Instruction := do
  let (source, tokens) ← next .inSource tokens
  let source ← named ShiftInSource.ofToken? .unknownSource source
  let (count, tokens) ← next .bitCount tokens
  let count ← bitCount count
  finish tokens
  return .shiftIn source count

/-- `out destination count` -/
def readOut (tokens : List String) : Except Fault Instruction := do
  let (destination, tokens) ← next .outDestination tokens
  let destination ← named ShiftOutDestination.ofToken? .unknownDestination destination
  let (count, tokens) ← next .bitCount tokens
  let count ← bitCount count
  finish tokens
  return .shiftOut destination count

/-- The first operand of `push` and `pull` asks for the threshold. Both spellings serve both. -/
def isConditional (tokens : List String) : Bool :=
  tokens.head? = some "iffull" || tokens.head? = some "ifempty"

/-- `push` and `pull` stall unless their last token is a longer word that ends in `block`. -/
def isBlocking (tokens : List String) : Bool :=
  match tokens.getLast? with
  | none => true
  | some last => last = "block" || !("block".toList.isSuffixOf last.toList)

/-- `mov destination [operator] source`, where the operator may be joined to the source. -/
def readMov (tokens : List String) : Except Fault Instruction := do
  let (destination, tokens) ← next .movDestination tokens
  let destination ← named MoveDestination.ofToken? .unknownDestination destination
  let (operator, source) ← match tokens with
    | [] => throw (.missing .movSource)
    | [source] => pure (MoveOperator.splitToken source)
    | [operator, source] => do
      let operator ← named MoveOperator.ofToken? .unknownOperator operator
      pure (some operator, source)
    | _ :: _ :: token :: _ => throw (.unexpectedOperand token)
  let source ← named MoveSource.ofToken? .unknownSource source
  return .mov destination operator source

/-- `irq [mode] index [rel]` -/
def readIrq (tokens : List String) : Except Fault Instruction := do
  let relative : Bool := tokens.getLast? = some "rel"
  let tokens := if relative then tokens.dropLast else tokens
  let (mode, index) ← match tokens with
    | [] => throw (.missing .irqIndex)
    | [index] => pure (IrqMode.set, index)
    | [mode, index] => pure (IrqMode.ofToken mode, index)
    | _ :: _ :: token :: _ => throw (.unexpectedOperand token)
  return .irq mode (← numberBelow .irqIndex 8 index) relative

/-- `set destination value` -/
def readSet (tokens : List String) : Except Fault Instruction := do
  let (destination, tokens) ← next .setDestination tokens
  let destination ← named SetDestination.ofToken? .unknownDestination destination
  let (value, tokens) ← next .setValue tokens
  let value ← numberBelow .setValue 32 value
  finish tokens
  return .set destination value

/-- The instruction of a mnemonic with the given operand tokens. `nop`, `push` and `pull` take any
tokens. -/
def readOperands (labels : LabelTable) (mnemonic : Mnemonic) (tokens : List String) :
    Except Fault Instruction :=
  match mnemonic with
  | .jmp => readJmp labels tokens
  | .wait => readWait tokens
  | .shiftIn => readIn tokens
  | .shiftOut => readOut tokens
  | .push => .ok (.push (isConditional tokens) (isBlocking tokens))
  | .pull => .ok (.pull (isConditional tokens) (isBlocking tokens))
  | .mov => readMov tokens
  | .irq => readIrq tokens
  | .set => readSet tokens
  | .nop => .ok nop

/-- The instruction that a list of tokens spells. -/
def read (labels : LabelTable) (tokens : List String) : Except Fault Instruction := do
  let (token, operands) ← next .instruction tokens
  let mnemonic ← named Mnemonic.ofToken? .unknownInstruction token
  readOperands labels mnemonic operands

end PioKit.Instruction
