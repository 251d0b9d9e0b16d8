import PioKit.Instruction.Read
import PioKit.Text.Basic

/-!
# Statements

A statement is an instruction with its modifiers: `core [side value] [delay]`. The modifiers are cut
off the end of the token list by their shape alone, the delay first; only then are they valued and
checked, again the delay first.

Delay and side-set value share the five bits above the operands: with a side-set width of `w` the
delay has the lower `5 - w` bits. The side-set value is bounded by `2 ^ w` inclusive, one more than
its bits hold, so the largest value reaches the lowest bit of the opcode.
-/

namespace PioKit

/-- The bits that delay and side-set value share. -/
def fieldBits : Nat := 5

/-- The values of the modifiers of an instruction. -/
structure Modifiers where
  /-- The cycles to wait after the instruction. -/
  delay : Nat
  /-- The value of the side-set pins. -/
  side : Nat
  deriving DecidableEq, Repr

/-- The delay/side-set field: the side-set value stands above the bits that are left for the
delay. -/
def Modifiers.field (width : Nat) (m : Modifiers) : Nat :=
  m.delay ||| m.side <<< (fieldBits - width)

/-- The tokens of a line, cut into the instruction and its modifiers. -/
structure Statement where
  /-- Mnemonic and operands. -/
  core : List String
  /-- The token after `side`. -/
  side : Option String
  /-- The token that ends in a closing bracket. -/
  delay : Option String
  deriving DecidableEq, Repr

namespace Statement

/-- A delay token is one that ends in a closing bracket. -/
def isDelay (token : String) : Bool :=
  token.toList.getLast? = some ']'

/-- Cuts a delay off the end of the tokens. -/
def cutDelay (tokens : List String) : List String × Option String :=
  match tokens.getLast? with
  | some last => if isDelay last then (tokens.dropLast, some last) else (tokens, none)
  | none => (tokens, none)

/-- Cuts the word `side` and its value off the end of the tokens. -/
def cutSide (tokens : List String) : List String × Option String :=
  match tokens.reverse with
  | value :: word :: front => if word = "side" then (front.reverse, some value) else (tokens, none)
  | _ => (tokens, none)

/-- The parts of a token list. -/
def ofTokens (tokens : List String) : Statement :=
  let (tokens, delay) := cutDelay tokens
  let (core, side) := cutSide tokens
  { core, side, delay }

/-- The largest delay beside a side-set value of the given width; negative if the width leaves no
field. -/
def maxDelay (width : Nat) : Int :=
  if width ≤ fieldBits then (1 <<< (fieldBits - width) : Nat) - 1 else -1

/-- The largest side-set value of the given width, one more than its bits hold. -/
def maxSide (width : Nat) : Int :=
  (1 <<< width : Nat)

/-- The number inside the brackets of a delay token. All opening brackets at its front and all
closing ones at its end are dropped. -/
def delayNumber (token : String) : String :=
  String.ofList (Text.dropEndWhile (· == ']') (token.toList.dropWhile (· == '[')))

/-- The value of a delay token. -/
def delayValue (width : Nat) (token : String) : Except Fault Nat := do
  let value ← Literal.read (delayNumber token)
  if 0 ≤ value ∧ value ≤ maxDelay width then
    return value.toNat
  else
    throw (.delayOutOfRange value (maxDelay width))

/-- The value of a side-set token. -/
def sideValue (width : Nat) (token : String) : Except Fault Nat := do
  let value ← Literal.read token
  if width ≤ fieldBits then
    if 0 ≤ value ∧ value ≤ maxSide width then
      return value.toNat
    else
      throw (.sideSetOutOfRange value (maxSide width))
  else
    throw (.outOfRange .sideSetWidth width 0 fieldBits)

/-- The values of the modifiers of a statement. An absent modifier counts as 0. -/
def modifiers (width : Nat) (s : Statement) : Except Fault Modifiers := do
  let delay ← match s.delay with
    | some token => delayValue width token
    | none => pure 0
  let side ← match s.side with
    | some token => sideValue width token
    | none => pure 0
  return { delay, side }

/-- The word of a statement: the field of the modifiers stands above the eight operand bits. -/
def encode (labels : LabelTable) (width : Nat) (s : Statement) : Except Fault Word := do
  let modifiers ← s.modifiers width
  let instruction ← Instruction.read labels s.core
  return instruction.word ||| BitVec.ofNat 16 (modifiers.field width) <<< 8

end Statement

end PioKit
