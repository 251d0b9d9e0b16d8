import PioKit.Instruction.Read
import PioKit.Proofs.Refusal

/-!
# The grammar of instructions

`Spells labels tokens i` says which lists of tokens stand for which instruction, form by form and
without reference to the order in which operands are checked. Reading tokens succeeds exactly on
these lists and gives exactly that instruction (`read_eq_ok_iff`), so the meaning of an accepted line
can be spoken of without the reader.

Three mnemonics take any operands: `nop` ignores them, and `push` and `pull` look at the first and the
last only.
-/

namespace PioKit.Instruction

/-! ## Single tokens -/

/-- The token is an integer literal of value `n`. -/
def IsNumeral (token : String) (n : Nat) : Prop :=
  Literal.parse? token = some (n : Int)

/-- The token names an address: a label stands for its index, and only what is no label is a
number. -/
inductive IsTarget (labels : LabelTable) (token : String) (address : Fin 32) : Prop where
  /-- A defined label whose index, as a signed number, is the address. -/
  | label {index : Nat} (defined : labels.address? token = some index)
      (reached : signedIndex index = (address : Nat)) : IsTarget labels token address
  /-- A number that is not the name of a label. -/
  | number (undefined : labels.address? token = none) (value : IsNumeral token address) :
      IsTarget labels token address

/-- The token that marks an index as relative, if it is. -/
def relMark (relative : Bool) : List String :=
  if relative then ["rel"] else []

@[simp] theorem relMark_true : relMark true = ["rel"] := rfl

@[simp] theorem relMark_false : relMark false = [] := rfl

/-- A table without repeated tokens is looked up by membership. -/
theorem lookup_eq_some_iff_mem {α : Type} {table : List (String × α)} {token : String} {a : α}
    (h : (table.map Prod.fst).Nodup) : table.lookup token = some a ↔ (token, a) ∈ table := by
  induction table with
  | nil => simp
  | cons entry rest ih =>
    obtain ⟨key, b⟩ := entry
    simp only [List.map_cons, List.nodup_cons] at h
    rw [List.lookup_cons]
    by_cases hk : token = key
    · subst hk
      have hrest : (token, a) ∉ rest := fun hm => h.1 (List.mem_map_of_mem hm)
      simp [hrest, eq_comm]
    · have hb : (token == key) = false := by simpa using hk
      simp [hb, hk, ih h.2]

theorem literal_read_eq_ok_iff {token : String} {value : Int} :
    Literal.read token = .ok value ↔ Literal.parse? token = some value := by
  unfold Literal.read
  cases Literal.parse? token <;> simp

theorem next_eq_ok_iff {part : Part} {tokens rest : List String} {token : String} :
    next part tokens = .ok (token, rest) ↔ tokens = token :: rest := by
  cases tokens <;> simp [next]

theorem finish_eq_ok_iff {tokens : List String} {u : Unit} :
    finish tokens = .ok u ↔ tokens = [] := by
  cases tokens <;> simp [finish]

theorem named_eq_ok_iff {α : Type} {ofToken? : String → Option α} {unknown : String → Fault}
    {token : String} {a : α} : named ofToken? unknown token = .ok a ↔ ofToken? token = some a := by
  unfold named
  cases ofToken? token <;> simp

theorem below_eq_ok_iff {part : Part} {bound : Nat} {value : Int} {n : Fin bound} :
    below part bound value = .ok n ↔ value = (n : Nat) := by
  unfold below
  split
  · next h =>
    simp only [Except.ok.injEq, Fin.ext_iff]
    omega
  · next h =>
    have := n.isLt
    simp only [reduceCtorEq, false_iff]
    omega

theorem numberBelow_eq_ok_iff {part : Part} {bound : Nat} {token : String} {n : Fin bound} :
    numberBelow part bound token = .ok n ↔ IsNumeral token n := by
  simp only [numberBelow, bind_eq_ok_iff, literal_read_eq_ok_iff, below_eq_ok_iff, IsNumeral]
  constructor
  · rintro ⟨value, h, rfl⟩
    exact h
  · intro h
    exact ⟨_, h, rfl⟩

theorem bitCount_eq_ok_iff {token : String} {count : BitCount} :
    bitCount token = .ok count ↔ IsNumeral token count.value := by
  simp only [bitCount, bind_eq_ok_iff, literal_read_eq_ok_iff, IsNumeral]
  constructor
  · rintro ⟨value, h, hc⟩
    split at hc
    · next hv =>
      cases hc
      rw [h]
      simp only [Option.some.injEq]
      omega
    · cases hc
  · intro h
    have hpos := count.pos
    have hle := count.le_register
    refine ⟨_, h, ?_⟩
    rw [dif_pos (by omega)]
    simp [pure, Except.pure]

theorem address_eq_ok_iff {labels : LabelTable} {token : String} {a : Fin 32} :
    address labels token = .ok a ↔ IsTarget labels token a := by
  unfold address
  -- a defined label is never read as a number, so each case leaves one form of `IsTarget`
  cases hl : labels.address? token with
  | some index =>
    have hlabel : IsTarget labels token a ↔ signedIndex index = (a : Nat) := by
      constructor
      · rintro (⟨hd, hr⟩ | ⟨hu, -⟩)
        · rw [hl] at hd
          cases hd
          exact hr
        · rw [hl] at hu
          cases hu
      · exact fun h => .label hl h
    simp only [hlabel, bind_eq_ok_iff, below_eq_ok_iff]
    constructor
    · rintro ⟨value, hv, rfl⟩
      exact Except.ok.inj hv
    · exact fun h => ⟨_, rfl, h⟩
  | none =>
    have hnumber : IsTarget labels token a ↔ IsNumeral token a := by
      constructor
      · rintro (⟨hd, -⟩ | ⟨-, hv⟩)
        · rw [hl] at hd
          cases hd
        · exact hv
      · exact fun h => .number hl h
    rw [hnumber, IsNumeral]
    cases hp : Literal.parse? token with
    | some value => simp [pure, Except.pure, bind, Except.bind, below_eq_ok_iff]
    | none => simp [throw, throwThe, MonadExceptOf.throw, bind, Except.bind]

/-! ## Whole instructions -/

/-- The list of tokens stands for the instruction. -/
inductive Spells (labels : LabelTable) : List String → Instruction → Prop where
  | jmp {target : String} {a : Fin 32} (ht : IsTarget labels target a) :
      Spells labels ["jmp", target] (.jmp .always a)
  | jmpIf {condition target : String} {c : JumpCondition} {a : Fin 32}
      (hc : JumpCondition.ofToken? condition = some c) (ht : IsTarget labels target a) :
      Spells labels ["jmp", condition, target] (.jmp c a)
  | wait {polarity source index : String} {p : Fin 2} {s : WaitSource} {n : Fin 32}
      (hp : IsNumeral polarity p) (hs : WaitSource.ofToken? source = some s)
      (hn : IsNumeral index n) (relative : Bool) :
      Spells labels (["wait", polarity, source, index] ++ relMark relative) (.wait p s n relative)
  | shiftIn {source count : String} {s : ShiftInSource} {c : BitCount}
      (hs : ShiftInSource.ofToken? source = some s) (hc : IsNumeral count c.value) :
      Spells labels ["in", source, count] (.shiftIn s c)
  | shiftOut {destination count : String} {d : ShiftOutDestination} {c : BitCount}
      (hd : ShiftOutDestination.ofToken? destination = some d) (hc : IsNumeral count c.value) :
      Spells labels ["out", destination, count] (.shiftOut d c)
  | push (operands : List String) :
      Spells labels ("push" :: operands) (.push (isConditional operands) (isBlocking operands))
  | pull (operands : List String) :
      Spells labels ("pull" :: operands) (.pull (isConditional operands) (isBlocking operands))
  | mov {destination source : String} {d : MoveDestination} {s : MoveSource}
      (hd : MoveDestination.ofToken? destination = some d)
      (hs : MoveSource.ofToken? source = some s) :
      Spells labels ["mov", destination, source] (.mov d none s)
  | movApart {destination operator source : String} {d : MoveDestination} {o : MoveOperator}
      {s : MoveSource} (hd : MoveDestination.ofToken? destination = some d)
      (ho : MoveOperator.ofToken? operator = some o) (hs : MoveSource.ofToken? source = some s) :
      Spells labels ["mov", destination, operator, source] (.mov d (some o) s)
  | movJoined {destination operator source : String} {d : MoveDestination} {o : MoveOperator}
      {s : MoveSource} (hd : MoveDestination.ofToken? destination = some d)
      (ho : MoveOperator.ofToken? operator = some o) (hs : MoveSource.ofToken? source = some s) :
      Spells labels ["mov", destination, operator ++ source] (.mov d (some o) s)
  | irq {index : String} {n : Fin 8} (hn : IsNumeral index n) (relative : Bool) :
      Spells labels (["irq", index] ++ relMark relative) (.irq .set n relative)
  | irqMode (mode : String) {index : String} {n : Fin 8} (hn : IsNumeral index n)
      (relative : Bool) :
      Spells labels (["irq", mode, index] ++ relMark relative)
        (.irq (IrqMode.ofToken mode) n relative)
  | set {destination value : String} {d : SetDestination} {n : Fin 32}
      (hd : SetDestination.ofToken? destination = some d) (hn : IsNumeral value n) :
      Spells labels ["set", destination, value] (.set d n)
  | nop (operands : List String) : Spells labels ("nop" :: operands) nop

variable {labels : LabelTable} {tokens : List String} {i : Instruction}

theorem spells_of_readJmp (h : readJmp labels tokens = .ok i) :
    Spells labels ("jmp" :: tokens) i := by
  unfold readJmp at h
  split at h
  · cases h
  · obtain ⟨a, ha, hi⟩ := bind_eq_ok_iff.mp h
    cases hi
    exact .jmp (address_eq_ok_iff.mp ha)
  · obtain ⟨c, hc, h⟩ := bind_eq_ok_iff.mp h
    obtain ⟨a, ha, hi⟩ := bind_eq_ok_iff.mp h
    cases hi
    exact .jmpIf (named_eq_ok_iff.mp hc) (address_eq_ok_iff.mp ha)
  · cases h

theorem spells_of_readWait (h : readWait tokens = .ok i) : Spells labels ("wait" :: tokens) i := by
  simp only [readWait, bind_eq_ok_iff, Prod.exists, next_eq_ok_iff, numberBelow_eq_ok_iff,
    named_eq_ok_iff] at h
  obtain ⟨polarity, _, rfl, p, hp, source, _, rfl, s, hs, index, rest, rfl, n, hn, h⟩ := h
  split at h
  · next hrel =>
    simp only [bind_eq_ok_iff, finish_eq_ok_iff] at h
    obtain ⟨-, hrest, hi⟩ := h
    obtain rfl : rest = ["rel"] := by
      cases rest with
      | nil => simp at hrel
      | cons token rest => simp_all
    cases hi
    exact .wait hp hs hn true
  · simp only [bind_eq_ok_iff, finish_eq_ok_iff] at h
    obtain ⟨-, rfl, hi⟩ := h
    cases hi
    exact .wait hp hs hn false

theorem spells_of_readIn (h : readIn tokens = .ok i) : Spells labels ("in" :: tokens) i := by
  simp only [readIn, bind_eq_ok_iff, Prod.exists, next_eq_ok_iff, bitCount_eq_ok_iff,
    named_eq_ok_iff, finish_eq_ok_iff] at h
  obtain ⟨source, _, rfl, s, hs, count, _, rfl, c, hc, -, rfl, hi⟩ := h
  cases hi
  exact .shiftIn hs hc

theorem spells_of_readOut (h : readOut tokens = .ok i) : Spells labels ("out" :: tokens) i := by
  simp only [readOut, bind_eq_ok_iff, Prod.exists, next_eq_ok_iff, bitCount_eq_ok_iff,
    named_eq_ok_iff, finish_eq_ok_iff] at h
  obtain ⟨destination, _, rfl, d, hd, count, _, rfl, c, hc, -, rfl, hi⟩ := h
  cases hi
  exact .shiftOut hd hc

theorem spells_of_readSet (h : readSet tokens = .ok i) : Spells labels ("set" :: tokens) i := by
  simp only [readSet, bind_eq_ok_iff, Prod.exists, next_eq_ok_iff, numberBelow_eq_ok_iff,
    named_eq_ok_iff, finish_eq_ok_iff] at h
  obtain ⟨destination, _, rfl, d, hd, value, _, rfl, n, hn, -, rfl, hi⟩ := h
  cases hi
  exact .set hd hn

/-! ### The operator and the source of `mov` -/

theorem moveOperator_ofToken?_eq_some_iff {operator : String} {o : MoveOperator} :
    MoveOperator.ofToken? operator = some o ↔
      operator = "~" ∧ o = .invert ∨ operator = "!" ∧ o = .invert ∨
        operator = "::" ∧ o = .reverse := by
  rw [MoveOperator.ofToken?, lookup_eq_some_iff_mem (by decide)]
  simp [MoveOperator.spellings]

theorem moveSource_ofToken?_eq_some_iff {source : String} {s : MoveSource} :
    MoveSource.ofToken? source = some s ↔ (source, s) ∈ MoveSource.spellings := by
  rw [MoveSource.ofToken?, lookup_eq_some_iff_mem (by decide)]

/-- An operator in front of a source is split off, whatever follows it. -/
theorem splitToken_operator_append {operator : String} {o : MoveOperator}
    (ho : MoveOperator.ofToken? operator = some o) (source : String) :
    MoveOperator.splitToken (operator ++ source) = (some o, source) := by
  rcases moveOperator_ofToken?_eq_some_iff.mp ho with ⟨rfl, rfl⟩ | ⟨rfl, rfl⟩ | ⟨rfl, rfl⟩ <;>
    simp [MoveOperator.splitToken, String.toList_append]

/-- No source starts with an operator. -/
theorem splitToken_source {source : String} {s : MoveSource}
    (hs : MoveSource.ofToken? source = some s) :
    MoveOperator.splitToken source = (none, source) := by
  have hm := moveSource_ofToken?_eq_some_iff.mp hs
  simp only [MoveSource.spellings, List.mem_cons, Prod.mk.injEq, List.not_mem_nil, or_false] at hm
  rcases hm with ⟨rfl, -⟩ | ⟨rfl, -⟩ | ⟨rfl, -⟩ | ⟨rfl, -⟩ | ⟨rfl, -⟩ | ⟨rfl, -⟩ | ⟨rfl, -⟩ <;> rfl

theorem eq_of_splitToken_eq_none {token source : String}
    (h : MoveOperator.splitToken token = (none, source)) : token = source := by
  unfold MoveOperator.splitToken at h
  split at h <;> simp_all

theorem eq_operator_append_of_splitToken {token source : String} {o : MoveOperator}
    (h : MoveOperator.splitToken token = (some o, source)) :
    ∃ operator, MoveOperator.ofToken? operator = some o ∧ token = operator ++ source := by
  unfold MoveOperator.splitToken at h
  split at h
  · next rest htoken =>
    cases h
    exact ⟨"::", rfl, String.ext (by simp [htoken, String.toList_append])⟩
  · next rest htoken =>
    cases h
    exact ⟨"~", rfl, String.ext (by simp [htoken, String.toList_append])⟩
  · next rest htoken =>
    cases h
    exact ⟨"!", rfl, String.ext (by simp [htoken, String.toList_append])⟩
  · cases h

theorem spells_of_readMov (h : readMov tokens = .ok i) : Spells labels ("mov" :: tokens) i := by
  simp only [readMov, bind_eq_ok_iff, Prod.exists, next_eq_ok_iff, named_eq_ok_iff] at h
  obtain ⟨destination, rest, rfl, d, hd, h⟩ := h
  split at h
  · cases h
  -- one token: the operator, if any, is joined to the source
  · next token =>
    obtain ⟨⟨operator, source⟩, hsplit, h⟩ := bind_eq_ok_iff.mp h
    obtain ⟨s, hs, hi⟩ := bind_eq_ok_iff.mp h
    have hs := named_eq_ok_iff.mp hs
    cases hi
    cases operator with
    | none =>
      obtain rfl := eq_of_splitToken_eq_none (Except.ok.inj hsplit)
      exact .mov hd hs
    | some o =>
      obtain ⟨operator, ho, rfl⟩ := eq_operator_append_of_splitToken (Except.ok.inj hsplit)
      exact .movJoined hd ho hs
  · obtain ⟨o, ho, h⟩ := bind_eq_ok_iff.mp h
    obtain ⟨_, hpair, h⟩ := bind_eq_ok_iff.mp h
    cases hpair
    obtain ⟨s, hs, hi⟩ := bind_eq_ok_iff.mp h
    cases hi
    exact .movApart hd (named_eq_ok_iff.mp ho) (named_eq_ok_iff.mp hs)
  · cases h

/-! ### The mark of a relative `irq` -/

/-- What stands before the mark `rel` at the end of the tokens, if it is there. -/
theorem eq_append_relMark (tokens : List String) :
    tokens = (if tokens.getLast? = some "rel" then tokens.dropLast else tokens) ++
      relMark (tokens.getLast? = some "rel") := by
  by_cases h : tokens.getLast? = some "rel"
  · obtain ⟨front, rfl⟩ := List.getLast?_eq_some_iff.mp h
    simp
  · simp [h]

theorem spells_of_readIrq (h : readIrq tokens = .ok i) : Spells labels ("irq" :: tokens) i := by
  have htokens := eq_append_relMark tokens
  -- the mark is cut off before the operands are counted: from here on it is a flag of its own
  simp only [readIrq, decide_eq_true_eq] at h
  generalize decide (tokens.getLast? = some "rel") = relative at h htokens
  split at h
  · cases h
  · next heq =>
    obtain ⟨_, hpair, h⟩ := bind_eq_ok_iff.mp h
    cases hpair
    obtain ⟨n, hn, hi⟩ := bind_eq_ok_iff.mp h
    cases hi
    rw [htokens, heq]
    exact .irq (numberBelow_eq_ok_iff.mp hn) relative
  · next mode _ heq =>
    obtain ⟨_, hpair, h⟩ := bind_eq_ok_iff.mp h
    cases hpair
    obtain ⟨n, hn, hi⟩ := bind_eq_ok_iff.mp h
    cases hi
    rw [htokens, heq]
    exact .irqMode mode (numberBelow_eq_ok_iff.mp hn) relative
  · cases h

/-! ### Reading is exact -/

theorem mnemonic_ofToken?_eq_some_iff {token : String} {m : Mnemonic} :
    Mnemonic.ofToken? token = some m ↔ (token, m) ∈ Mnemonic.spellings := by
  rw [Mnemonic.ofToken?, lookup_eq_some_iff_mem (by decide)]

theorem spells_of_read (h : read labels tokens = .ok i) : Spells labels tokens i := by
  simp only [read, bind_eq_ok_iff, Prod.exists, next_eq_ok_iff, named_eq_ok_iff,
    mnemonic_ofToken?_eq_some_iff, Mnemonic.spellings, List.mem_cons, Prod.mk.injEq,
    List.not_mem_nil, or_false] at h
  obtain ⟨token, operands, rfl, m, hm, h⟩ := h
  rcases hm with ⟨rfl, rfl⟩ | ⟨rfl, rfl⟩ | ⟨rfl, rfl⟩ | ⟨rfl, rfl⟩ | ⟨rfl, rfl⟩ | ⟨rfl, rfl⟩ |
    ⟨rfl, rfl⟩ | ⟨rfl, rfl⟩ | ⟨rfl, rfl⟩ | ⟨rfl, rfl⟩
  · exact spells_of_readJmp h
  · exact spells_of_readWait h
  · exact spells_of_readIn h
  · exact spells_of_readOut h
  · cases h
    exact .push operands
  · cases h
    exact .pull operands
  · exact spells_of_readMov h
  · exact spells_of_readIrq h
  · exact spells_of_readSet h
  · cases h
    exact .nop operands

theorem read_cons {token : String} {m : Mnemonic} (h : Mnemonic.ofToken? token = some m)
    (operands : List String) : read labels (token :: operands) = readOperands labels m operands := by
  simp [read, next, named, h, bind, Except.bind]

theorem readWait_of_spells {polarity source index : String} {p : Fin 2} {s : WaitSource}
    {n : Fin 32} (hp : IsNumeral polarity p) (hs : WaitSource.ofToken? source = some s)
    (hn : IsNumeral index n) (relative : Bool) :
    readWait (polarity :: source :: index :: relMark relative) = .ok (.wait p s n relative) := by
  simp only [readWait, bind_eq_ok_iff, Prod.exists, next_eq_ok_iff, numberBelow_eq_ok_iff,
    named_eq_ok_iff]
  refine ⟨_, _, rfl, p, hp, _, _, rfl, s, hs, _, _, rfl, n, hn, ?_⟩
  cases relative <;> rfl

theorem readMov_of_splitToken {destination token source : String} {d : MoveDestination}
    {operator : Option MoveOperator} {s : MoveSource}
    (hd : MoveDestination.ofToken? destination = some d)
    (ht : MoveOperator.splitToken token = (operator, source))
    (hs : MoveSource.ofToken? source = some s) :
    readMov [destination, token] = .ok (.mov d operator s) := by
  refine bind_eq_ok_iff.mpr ⟨_, rfl, bind_eq_ok_iff.mpr ⟨d, named_eq_ok_iff.mpr hd, ?_⟩⟩
  refine bind_eq_ok_iff.mpr ⟨(operator, source), by rw [ht]; rfl, ?_⟩
  exact bind_eq_ok_iff.mpr ⟨s, named_eq_ok_iff.mpr hs, rfl⟩

theorem readMov_of_operator {destination token source : String} {d : MoveDestination}
    {o : MoveOperator} {s : MoveSource} (hd : MoveDestination.ofToken? destination = some d)
    (ho : MoveOperator.ofToken? token = some o) (hs : MoveSource.ofToken? source = some s) :
    readMov [destination, token, source] = .ok (.mov d (some o) s) := by
  refine bind_eq_ok_iff.mpr ⟨_, rfl, bind_eq_ok_iff.mpr ⟨d, named_eq_ok_iff.mpr hd, ?_⟩⟩
  refine bind_eq_ok_iff.mpr ⟨o, named_eq_ok_iff.mpr ho, bind_eq_ok_iff.mpr ⟨_, rfl, ?_⟩⟩
  exact bind_eq_ok_iff.mpr ⟨s, named_eq_ok_iff.mpr hs, rfl⟩

/-- A number is not taken for the mark `rel`. -/
theorem IsNumeral.ne_rel {token : String} {n : Nat} (h : IsNumeral token n) : token ≠ "rel" := by
  rintro rfl
  have hnone : Literal.parse? "rel" = none := by decide
  rw [IsNumeral, hnone] at h
  cases h

/-- The mark at the end of the operands of an `irq` is found, and only there. -/
theorem readIrq_append_relMark {front : List String} {index : String} {n : Fin 8} {mode : IrqMode}
    (hfront : front = [] ∧ mode = .set ∨ ∃ token, front = [token] ∧ mode = IrqMode.ofToken token)
    (hn : IsNumeral index n) (relative : Bool) :
    readIrq (front ++ index :: relMark relative) = .ok (.irq mode n relative) := by
  have hread : numberBelow .irqIndex 8 index = .ok n := numberBelow_eq_ok_iff.mpr hn
  have hne := hn.ne_rel
  obtain ⟨rfl, rfl⟩ | ⟨token, rfl, rfl⟩ := hfront <;> cases relative <;>
    simp [readIrq, hne, hread, bind, Except.bind, pure, Except.pure]

theorem read_of_spells (h : Spells labels tokens i) : read labels tokens = .ok i := by
  cases h with
  | jmp ht =>
    rw [read_cons (m := .jmp) rfl]
    exact bind_eq_ok_iff.mpr ⟨_, address_eq_ok_iff.mpr ht, rfl⟩
  | jmpIf hc ht =>
    rw [read_cons (m := .jmp) rfl]
    exact bind_eq_ok_iff.mpr ⟨_, named_eq_ok_iff.mpr hc,
      bind_eq_ok_iff.mpr ⟨_, address_eq_ok_iff.mpr ht, rfl⟩⟩
  | wait hp hs hn relative => exact readWait_of_spells hp hs hn relative
  | shiftIn hs hc =>
    rw [read_cons (m := .shiftIn) rfl]
    simp only [readOperands, readIn, bind_eq_ok_iff, Prod.exists, next_eq_ok_iff,
      bitCount_eq_ok_iff, named_eq_ok_iff, finish_eq_ok_iff]
    exact ⟨_, _, rfl, _, hs, _, _, rfl, _, hc, (), rfl, rfl⟩
  | shiftOut hd hc =>
    rw [read_cons (m := .shiftOut) rfl]
    simp only [readOperands, readOut, bind_eq_ok_iff, Prod.exists, next_eq_ok_iff,
      bitCount_eq_ok_iff, named_eq_ok_iff, finish_eq_ok_iff]
    exact ⟨_, _, rfl, _, hd, _, _, rfl, _, hc, (), rfl, rfl⟩
  | push operands => rfl
  | pull operands => rfl
  | mov hd hs => exact readMov_of_splitToken hd (splitToken_source hs) hs
  | movApart hd ho hs => exact readMov_of_operator hd ho hs
  | movJoined hd ho hs => exact readMov_of_splitToken hd (splitToken_operator_append ho _) hs
  | irq hn relative => exact readIrq_append_relMark (.inl ⟨rfl, rfl⟩) hn relative
  | irqMode mode hn relative => exact readIrq_append_relMark (.inr ⟨mode, rfl, rfl⟩) hn relative
  | set hd hn =>
    rw [read_cons (m := .set) rfl]
    simp only [readOperands, readSet, bind_eq_ok_iff, Prod.exists, next_eq_ok_iff,
      numberBelow_eq_ok_iff, named_eq_ok_iff, finish_eq_ok_iff]
    exact ⟨_, _, rfl, _, hd, _, _, rfl, _, hn, (), rfl, rfl⟩
  | nop operands => rfl

/-- Reading accepts exactly the spelled instructions. -/
theorem read_eq_ok_iff : read labels tokens = .ok i ↔ Spells labels tokens i :=
  ⟨spells_of_read, read_of_spells⟩

end PioKit.Instruction
