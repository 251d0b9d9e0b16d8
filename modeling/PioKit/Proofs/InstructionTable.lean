import PioKit.Proofs.Field

/-!
# The table of instructions

The instruction set as a table: which tokens make an instruction, which values its operands may have,
and at which bit of the word each of them stands. `Listed` has one row per form and speaks of names and
numbers only. A line is accepted exactly if the table lists what its modifiers leave of it, and then its
word is the one in the table with the modifiers above the operands.
-/

namespace PioKit.Instruction

/-! ## Names and numbers of operands -/

/-- The conditions of `jmp`. -/
def conditionNames : List (String × Nat) :=
  [("!x", 1), ("x--", 2), ("!y", 3), ("y--", 4), ("x!=y", 5), ("pin", 6), ("!osre", 7)]

/-- What `wait` looks at. -/
def waitNames : List (String × Nat) :=
  [("gpio", 0), ("pin", 1), ("irq", 2)]

/-- The sources of `in`. -/
def inNames : List (String × Nat) :=
  [("pins", 0), ("x", 1), ("y", 2), ("null", 3), ("isr", 6), ("osr", 7)]

/-- The destinations of `out`. -/
def outNames : List (String × Nat) :=
  [("pins", 0), ("x", 1), ("y", 2), ("null", 3), ("pindirs", 4), ("pc", 5), ("isr", 6), ("exec", 7)]

/-- The destinations of `mov`. -/
def movDestinationNames : List (String × Nat) :=
  [("pins", 0), ("x", 1), ("y", 2), ("exec", 4), ("pc", 5), ("isr", 6), ("osr", 7)]

/-- The sources of `mov`. -/
def movSourceNames : List (String × Nat) :=
  [("pins", 0), ("x", 1), ("y", 2), ("null", 3), ("status", 5), ("isr", 6), ("osr", 7)]

/-- The operators of `mov`. -/
def operatorNames : List (String × Nat) :=
  [("~", 1), ("!", 1), ("::", 2)]

/-- The destinations of `set`. -/
def setNames : List (String × Nat) :=
  [("pins", 0), ("x", 1), ("y", 2), ("pindirs", 4)]

/-- The number of a mode of `irq`; any word is one. -/
def modeNumber (mode : String) : Nat :=
  if mode = "wait" then 1 else if mode = "clear" then 2 else 0

/-- A name is listed with a number if it is the name of an operand with that code. -/
theorem mem_names_iff {α : Type} {bits : Nat} {spellings : List (String × α)}
    {code : α → BitVec bits} {names : List (String × Nat)} {token : String} {n : Nat}
    (hnames : names = spellings.map fun entry => (entry.1, (code entry.2).toNat))
    (hdistinct : (spellings.map Prod.fst).Nodup) :
    (token, n) ∈ names ↔ ∃ a, spellings.lookup token = some a ∧ (code a).toNat = n := by
  simp only [hnames, List.mem_map, Prod.exists, Prod.mk.injEq, lookup_eq_some_iff_mem hdistinct]
  constructor
  · rintro ⟨_, a, hmem, rfl, rfl⟩
    exact ⟨a, hmem, rfl⟩
  · rintro ⟨a, hmem, rfl⟩
    exact ⟨token, a, hmem, rfl, rfl⟩

variable {labels : LabelTable} {token : String} {n : Nat}

theorem mem_conditionNames_iff :
    (token, n) ∈ conditionNames ↔ ∃ c, JumpCondition.ofToken? token = some c ∧ c.code.toNat = n :=
  mem_names_iff (by decide) (by decide)

theorem mem_waitNames_iff :
    (token, n) ∈ waitNames ↔ ∃ s, WaitSource.ofToken? token = some s ∧ s.code.toNat = n :=
  mem_names_iff (by decide) (by decide)

theorem mem_inNames_iff :
    (token, n) ∈ inNames ↔ ∃ s, ShiftInSource.ofToken? token = some s ∧ s.code.toNat = n :=
  mem_names_iff (by decide) (by decide)

theorem mem_outNames_iff :
    (token, n) ∈ outNames ↔ ∃ d, ShiftOutDestination.ofToken? token = some d ∧ d.code.toNat = n :=
  mem_names_iff (by decide) (by decide)

theorem mem_movDestinationNames_iff :
    (token, n) ∈ movDestinationNames ↔
      ∃ d, MoveDestination.ofToken? token = some d ∧ d.code.toNat = n :=
  mem_names_iff (by decide) (by decide)

theorem mem_movSourceNames_iff :
    (token, n) ∈ movSourceNames ↔ ∃ s, MoveSource.ofToken? token = some s ∧ s.code.toNat = n :=
  mem_names_iff (by decide) (by decide)

theorem mem_operatorNames_iff :
    (token, n) ∈ operatorNames ↔ ∃ o, MoveOperator.ofToken? token = some o ∧ o.code.toNat = n :=
  mem_names_iff (by decide) (by decide)

theorem mem_setNames_iff :
    (token, n) ∈ setNames ↔ ∃ d, SetDestination.ofToken? token = some d ∧ d.code.toNat = n :=
  mem_names_iff (by decide) (by decide)

theorem toNat_code_ofToken (mode : String) : (IrqMode.ofToken mode).code.toNat = modeNumber mode := by
  unfold IrqMode.ofToken modeNumber
  split
  · rfl
  · split <;> rfl

/-! ## The rows of the table -/

/-- Operands side by side, each a value and the bit at which it starts. -/
def lay : List (Nat × Nat) → Nat
  | [] => 0
  | (value, position) :: rest => value <<< position ||| lay rest

/-- A word that starts as a template, with operands. -/
def fill (template : Nat) (operands : List (Nat × Nat)) : Nat :=
  template ||| lay operands

/-- The token is an integer literal of value `n`, which is at least `least` and at most `most`. -/
structure IsNumeralIn (least most : Nat) (token : String) (n : Nat) : Prop where
  numeral : IsNumeral token n
  ge : least ≤ n
  le : n ≤ most

/-- The token is the target of a jump to `n`. A label goes before a number. -/
inductive JumpsTo (labels : LabelTable) (token : String) (n : Nat) : Prop where
  | label (defined : labels.address? token = some n) (le : n ≤ 31) : JumpsTo labels token n
  | number (undefined : labels.address? token = none) (numeral : IsNumeralIn 0 31 token n) :
      JumpsTo labels token n

/-- What the operands of `push` and `pull` ask for. -/
structure QueueFlags (operands : List String) (conditional blocking : Bool) : Prop where
  /-- The first operand asks for the threshold. -/
  conditional : conditional = true ↔
    operands.head? = some "iffull" ∨ operands.head? = some "ifempty"
  /-- The last operand asks not to stall: it ends in `block`, but is longer. -/
  blocking : blocking = false ↔
    ∃ last, operands.getLast? = some last ∧ last ≠ "block" ∧ "block".toList <:+ last.toList

/-- The table of instructions: the tokens of each form, and its word. -/
inductive Listed (labels : LabelTable) : List String → Nat → Prop where
  | nop (operands : List String) : Listed labels ("nop" :: operands) (fill 0xA042 [])
  | jmp {target : String} {a : Nat} (ht : JumpsTo labels target a) :
      Listed labels ["jmp", target] (fill 0x0000 [(0, 5), (a, 0)])
  | jmpIf {condition target : String} {c a : Nat} (hc : (condition, c) ∈ conditionNames)
      (ht : JumpsTo labels target a) :
      Listed labels ["jmp", condition, target] (fill 0x0000 [(c, 5), (a, 0)])
  | wait {polarity source index : String} {p s n : Nat} (hp : IsNumeralIn 0 1 polarity p)
      (hs : (source, s) ∈ waitNames) (hn : IsNumeralIn 0 31 index n) (relative : Bool) :
      Listed labels (["wait", polarity, source, index] ++ relMark relative)
        (fill 0x2000 [(p, 7), (s, 4), (n, 0), (relative.toNat, 4)])
  | shiftIn {source count : String} {s c : Nat} (hs : (source, s) ∈ inNames)
      (hc : IsNumeralIn 1 32 count c) :
      Listed labels ["in", source, count] (fill 0x4000 [(s, 5), (c % 32, 0)])
  | shiftOut {destination count : String} {d c : Nat} (hd : (destination, d) ∈ outNames)
      (hc : IsNumeralIn 1 32 count c) :
      Listed labels ["out", destination, count] (fill 0x6000 [(d, 5), (c % 32, 0)])
  | push {operands : List String} {conditional blocking : Bool}
      (hq : QueueFlags operands conditional blocking) :
      Listed labels ("push" :: operands)
        (fill 0x8000 [(conditional.toNat, 6), (blocking.toNat, 5)])
  | pull {operands : List String} {conditional blocking : Bool}
      (hq : QueueFlags operands conditional blocking) :
      Listed labels ("pull" :: operands)
        (fill 0x8080 [(conditional.toNat, 6), (blocking.toNat, 5)])
  | mov {destination source : String} {d s : Nat} (hd : (destination, d) ∈ movDestinationNames)
      (hs : (source, s) ∈ movSourceNames) :
      Listed labels ["mov", destination, source] (fill 0xA000 [(d, 5), (0, 3), (s, 0)])
  | movApart {destination operator source : String} {d o s : Nat}
      (hd : (destination, d) ∈ movDestinationNames) (ho : (operator, o) ∈ operatorNames)
      (hs : (source, s) ∈ movSourceNames) :
      Listed labels ["mov", destination, operator, source] (fill 0xA000 [(d, 5), (o, 3), (s, 0)])
  | movJoined {destination operator source : String} {d o s : Nat}
      (hd : (destination, d) ∈ movDestinationNames) (ho : (operator, o) ∈ operatorNames)
      (hs : (source, s) ∈ movSourceNames) :
      Listed labels ["mov", destination, operator ++ source] (fill 0xA000 [(d, 5), (o, 3), (s, 0)])
  | irq {index : String} {n : Nat} (hn : IsNumeralIn 0 7 index n) (relative : Bool) :
      Listed labels (["irq", index] ++ relMark relative)
        (fill 0xC000 [(0, 5), (relative.toNat, 4), (n, 0)])
  | irqMode (mode : String) {index : String} {n : Nat} (hn : IsNumeralIn 0 7 index n)
      (relative : Bool) :
      Listed labels (["irq", mode, index] ++ relMark relative)
        (fill 0xC000 [(modeNumber mode, 5), (relative.toNat, 4), (n, 0)])
  | set {destination value : String} {d n : Nat} (hd : (destination, d) ∈ setNames)
      (hn : IsNumeralIn 0 31 value n) :
      Listed labels ["set", destination, value] (fill 0xE000 [(d, 5), (n, 0)])

/-! ## The words of the table -/

theorem toNat_word (i : Instruction) :
    i.word.toNat = i.mnemonic.opcode.toNat <<< 13 ||| i.operands.toNat := by
  rw [word, BitVec.toNat_append, BitVec.toNat_append]
  simp [← Nat.shiftLeft_add]

theorem toNat_template (m : Mnemonic) :
    m.template.toNat = m.opcode.toNat <<< 13 ||| m.fixedOperands.toNat := by
  rw [Mnemonic.template, BitVec.toNat_append, BitVec.toNat_append]
  simp [← Nat.shiftLeft_add]

/-- The operands fill a word if they lay beside what the mnemonic itself fixes. -/
theorem toNat_word_of_operands {i : Instruction} {template : Nat} {fields : List (Nat × Nat)}
    (htemplate : i.mnemonic.template.toNat = template)
    (h : i.operands.toNat = i.mnemonic.fixedOperands.toNat ||| lay fields) :
    i.word.toNat = fill template fields := by
  rw [toNat_word, fill, ← htemplate, toNat_template, h, Nat.or_assoc]

theorem toNat_ofNat_fin {bits bound : Nat} (hb : bound ≤ 2 ^ bits) (a : Fin bound) :
    (BitVec.ofNat bits a).toNat = a := by
  rw [BitVec.toNat_ofNat, Nat.mod_eq_of_lt (a.isLt.trans_le hb)]

theorem toNat_code_bitCount (c : BitCount) : c.code.toNat = c.value % 32 :=
  BitVec.toNat_ofNat c.value 5

theorem toNat_word_jmp (c : JumpCondition) (a : Fin 32) :
    (Instruction.jmp c a).word.toNat = fill 0x0000 [(c.code.toNat, 5), (a, 0)] := by
  have htemplate : Mnemonic.jmp.template.toNat = 0x0000 := by decide
  refine toNat_word_of_operands htemplate ?_
  rw [operands, BitVec.toNat_append, toNat_ofNat_fin (by decide)]
  simp [lay, mnemonic, Mnemonic.fixedOperands]

theorem toNat_word_wait (p : Fin 2) (s : WaitSource) (n : Fin 32) (relative : Bool) :
    (Instruction.wait p s n relative).word.toNat =
      fill 0x2000 [(p, 7), (s.code.toNat, 4), (n, 0), (relative.toNat, 4)] := by
  have htemplate : Mnemonic.wait.template.toNat = 0x2000 := by decide
  refine toNat_word_of_operands htemplate ?_
  rw [operands, waitOperands, BitVec.toNat_or, BitVec.toNat_or, BitVec.toNat_or]
  repeat rw [BitVec.toNat_append]
  rw [toNat_ofNat_fin (by decide), toNat_ofNat_fin (by decide)]
  simp [lay, mnemonic, Mnemonic.fixedOperands, Nat.or_assoc]

theorem toNat_word_shiftIn (s : ShiftInSource) (c : BitCount) :
    (Instruction.shiftIn s c).word.toNat = fill 0x4000 [(s.code.toNat, 5), (c.value % 32, 0)] := by
  have htemplate : Mnemonic.shiftIn.template.toNat = 0x4000 := by decide
  refine toNat_word_of_operands htemplate ?_
  rw [operands, BitVec.toNat_append, toNat_code_bitCount]
  simp [lay, mnemonic, Mnemonic.fixedOperands]

theorem toNat_word_shiftOut (d : ShiftOutDestination) (c : BitCount) :
    (Instruction.shiftOut d c).word.toNat =
      fill 0x6000 [(d.code.toNat, 5), (c.value % 32, 0)] := by
  have htemplate : Mnemonic.shiftOut.template.toNat = 0x6000 := by decide
  refine toNat_word_of_operands htemplate ?_
  rw [operands, BitVec.toNat_append, toNat_code_bitCount]
  simp [lay, mnemonic, Mnemonic.fixedOperands]

theorem toNat_word_push (conditional blocking : Bool) :
    (Instruction.push conditional blocking).word.toNat =
      fill 0x8000 [(conditional.toNat, 6), (blocking.toNat, 5)] := by
  cases conditional <;> cases blocking <;> rfl

theorem toNat_word_pull (conditional blocking : Bool) :
    (Instruction.pull conditional blocking).word.toNat =
      fill 0x8080 [(conditional.toNat, 6), (blocking.toNat, 5)] := by
  cases conditional <;> cases blocking <;> rfl

theorem toNat_word_mov (d : MoveDestination) (o : Option MoveOperator) (s : MoveSource) :
    (Instruction.mov d o s).word.toNat =
      fill 0xA000 [(d.code.toNat, 5), ((MoveOperator.codeOf o).toNat, 3), (s.code.toNat, 0)] := by
  have htemplate : Mnemonic.mov.template.toNat = 0xA000 := by decide
  refine toNat_word_of_operands htemplate ?_
  rw [operands, BitVec.toNat_append, BitVec.toNat_append, Nat.shiftLeft_or_distrib,
    ← Nat.shiftLeft_add]
  simp [lay, mnemonic, Mnemonic.fixedOperands, Nat.or_assoc]

theorem toNat_word_irq (m : IrqMode) (n : Fin 8) (relative : Bool) :
    (Instruction.irq m n relative).word.toNat =
      fill 0xC000 [(m.code.toNat, 5), (relative.toNat, 4), (n, 0)] := by
  have htemplate : Mnemonic.irq.template.toNat = 0xC000 := by decide
  refine toNat_word_of_operands htemplate ?_
  rw [operands]
  repeat rw [BitVec.toNat_append]
  rw [toNat_ofNat_fin (by decide)]
  simp [lay, mnemonic, Mnemonic.fixedOperands, Nat.or_assoc, Nat.shiftLeft_or_distrib,
    ← Nat.shiftLeft_add]

theorem toNat_word_set (d : SetDestination) (n : Fin 32) :
    (Instruction.set d n).word.toNat = fill 0xE000 [(d.code.toNat, 5), (n, 0)] := by
  have htemplate : Mnemonic.set.template.toNat = 0xE000 := by decide
  refine toNat_word_of_operands htemplate ?_
  rw [operands, BitVec.toNat_append, toNat_ofNat_fin (by decide)]
  simp [lay, mnemonic, Mnemonic.fixedOperands]

theorem toNat_word_nop : nop.word.toNat = fill 0xA042 [] := rfl

/-! ## Single tokens -/

theorem isNumeralIn_of_fin {bound : Nat} {a : Fin (bound + 1)} (h : IsNumeral token a) :
    IsNumeralIn 0 bound token a :=
  ⟨h, Nat.zero_le _, Nat.le_of_lt_succ a.isLt⟩

theorem IsNumeralIn.exists_fin {bound : Nat} (h : IsNumeralIn 0 bound token n) :
    ∃ a : Fin (bound + 1), (a : Nat) = n ∧ IsNumeral token a :=
  ⟨⟨n, Nat.lt_succ_of_le h.le⟩, rfl, h.numeral⟩

theorem IsNumeralIn.exists_bitCount (h : IsNumeralIn 1 32 token n) :
    ∃ c : BitCount, c.value = n ∧ IsNumeral token c.value :=
  ⟨⟨n, h.ge, h.le⟩, rfl, h.numeral⟩

theorem queueFlags_iff {operands : List String} {conditional blocking : Bool} :
    QueueFlags operands conditional blocking ↔
      conditional = isConditional operands ∧ blocking = isBlocking operands := by
  have hconditional : isConditional operands = true ↔
      operands.head? = some "iffull" ∨ operands.head? = some "ifempty" := by
    simp [isConditional]
  have hblocking : isBlocking operands = false ↔
      ∃ last, operands.getLast? = some last ∧ last ≠ "block" ∧
        "block".toList <:+ last.toList := by
    unfold isBlocking
    cases operands.getLast? with
    | none => simp
    | some last => simp [List.isSuffixOf_iff_suffix]
  constructor
  · rintro ⟨hc, hb⟩
    rw [← hconditional] at hc
    rw [← hblocking] at hb
    exact ⟨Bool.eq_iff_iff.mpr hc, Bool.eq_iff_iff.mpr (by grind)⟩
  · rintro ⟨rfl, rfl⟩
    exact ⟨hconditional, hblocking⟩

/-- The instruction indices of all labels are 64-bit numbers. -/
def HasWordIndices (labels : LabelTable) : Prop :=
  ∀ label ∈ labels.entries, label.index < 2 ^ 64

theorem HasWordIndices.lt (h : HasWordIndices labels) (hn : labels.address? token = some n) :
    n < 2 ^ 64 := by
  obtain ⟨label, hfind, rfl⟩ := Option.map_eq_some_iff.mp hn
  exact h label (List.mem_of_find?_eq_some hfind)

/-- Of the 64-bit numbers only the small ones are small as signed numbers. -/
theorem signedIndex_eq_iff {index : Nat} (h : index < 2 ^ 64) (a : Fin 32) :
    signedIndex index = (a : Nat) ↔ index = a := by
  have ha := a.isLt
  -- the signed number and the index agree modulo the size of the range
  have hemod : signedIndex index % ((0x10000000000000000 : Nat) : Int) = index :=
    Int.bmod_emod.trans (by omega)
  constructor
  · intro hsigned
    rw [hsigned] at hemod
    omega
  · rintro rfl
    exact Int.bmod_eq_of_le (by omega) (by omega)

theorem isTarget_iff_jumpsTo (h : HasWordIndices labels) {a : Fin 32} :
    IsTarget labels token a ↔ JumpsTo labels token a := by
  constructor
  · rintro (⟨hdefined, hreached⟩ | ⟨hundefined, hvalue⟩)
    · obtain rfl := (signedIndex_eq_iff (h.lt hdefined) a).mp hreached
      exact .label hdefined (Nat.le_of_lt_succ a.isLt)
    · exact .number hundefined (isNumeralIn_of_fin hvalue)
  · rintro (⟨hdefined, -⟩ | ⟨hundefined, hvalue⟩)
    · exact .label hdefined ((signedIndex_eq_iff (h.lt hdefined) a).mpr rfl)
    · exact .number hundefined hvalue.numeral

theorem JumpsTo.exists_fin (h : JumpsTo labels token n) :
    ∃ a : Fin 32, (a : Nat) = n ∧ JumpsTo labels token a := by
  have hlt : n < 32 := by
    cases h with
    | label _ hle => exact Nat.lt_succ_of_le hle
    | number _ hvalue => exact Nat.lt_succ_of_le hvalue.le
  exact ⟨⟨n, hlt⟩, rfl, h⟩

/-! ## The table lists what is read -/

theorem listed_of_spells (hlabels : HasWordIndices labels) {tokens : List String} {i : Instruction}
    (h : Spells labels tokens i) : Listed labels tokens i.word.toNat := by
  cases h with
  | jmp ht =>
    rw [toNat_word_jmp]
    exact .jmp ((isTarget_iff_jumpsTo hlabels).mp ht)
  | jmpIf hc ht =>
    rw [toNat_word_jmp]
    exact .jmpIf (mem_conditionNames_iff.mpr ⟨_, hc, rfl⟩) ((isTarget_iff_jumpsTo hlabels).mp ht)
  | wait hp hs hn relative =>
    rw [toNat_word_wait]
    exact .wait (isNumeralIn_of_fin hp) (mem_waitNames_iff.mpr ⟨_, hs, rfl⟩)
      (isNumeralIn_of_fin hn) relative
  | @shiftIn _ _ _ c hs hc =>
    rw [toNat_word_shiftIn]
    exact .shiftIn (mem_inNames_iff.mpr ⟨_, hs, rfl⟩) ⟨hc, c.pos, c.le_register⟩
  | @shiftOut _ _ _ c hd hc =>
    rw [toNat_word_shiftOut]
    exact .shiftOut (mem_outNames_iff.mpr ⟨_, hd, rfl⟩) ⟨hc, c.pos, c.le_register⟩
  | push operands =>
    rw [toNat_word_push]
    exact .push (queueFlags_iff.mpr ⟨rfl, rfl⟩)
  | pull operands =>
    rw [toNat_word_pull]
    exact .pull (queueFlags_iff.mpr ⟨rfl, rfl⟩)
  | mov hd hs =>
    rw [toNat_word_mov]
    exact .mov (mem_movDestinationNames_iff.mpr ⟨_, hd, rfl⟩)
      (mem_movSourceNames_iff.mpr ⟨_, hs, rfl⟩)
  | movApart hd ho hs =>
    rw [toNat_word_mov]
    exact .movApart (mem_movDestinationNames_iff.mpr ⟨_, hd, rfl⟩)
      (mem_operatorNames_iff.mpr ⟨_, ho, rfl⟩) (mem_movSourceNames_iff.mpr ⟨_, hs, rfl⟩)
  | movJoined hd ho hs =>
    rw [toNat_word_mov]
    exact .movJoined (mem_movDestinationNames_iff.mpr ⟨_, hd, rfl⟩)
      (mem_operatorNames_iff.mpr ⟨_, ho, rfl⟩) (mem_movSourceNames_iff.mpr ⟨_, hs, rfl⟩)
  | irq hn relative =>
    rw [toNat_word_irq]
    exact .irq (isNumeralIn_of_fin hn) relative
  | irqMode mode hn relative =>
    rw [toNat_word_irq, toNat_code_ofToken]
    exact .irqMode mode (isNumeralIn_of_fin hn) relative
  | set hd hn =>
    rw [toNat_word_set]
    exact .set (mem_setNames_iff.mpr ⟨_, hd, rfl⟩) (isNumeralIn_of_fin hn)
  | nop operands => exact .nop operands

theorem exists_spells_of_listed (hlabels : HasWordIndices labels) {tokens : List String}
    (h : Listed labels tokens n) : ∃ i, Spells labels tokens i ∧ i.word.toNat = n := by
  cases h with
  | nop operands => exact ⟨_, .nop operands, toNat_word_nop⟩
  | jmp ht =>
    obtain ⟨a, rfl, ht'⟩ := ht.exists_fin
    exact ⟨_, .jmp ((isTarget_iff_jumpsTo hlabels).mpr ht'), toNat_word_jmp _ a⟩
  | jmpIf hc ht =>
    obtain ⟨c, hc', rfl⟩ := mem_conditionNames_iff.mp hc
    obtain ⟨a, rfl, ht'⟩ := ht.exists_fin
    exact ⟨_, .jmpIf hc' ((isTarget_iff_jumpsTo hlabels).mpr ht'), toNat_word_jmp c a⟩
  | wait hp hs hn relative =>
    obtain ⟨p, rfl, hp'⟩ := hp.exists_fin
    obtain ⟨s, hs', rfl⟩ := mem_waitNames_iff.mp hs
    obtain ⟨n, rfl, hn'⟩ := hn.exists_fin
    exact ⟨_, .wait hp' hs' hn' relative, toNat_word_wait p s n relative⟩
  | shiftIn hs hc =>
    obtain ⟨s, hs', rfl⟩ := mem_inNames_iff.mp hs
    obtain ⟨c, rfl, hc'⟩ := hc.exists_bitCount
    exact ⟨_, .shiftIn hs' hc', toNat_word_shiftIn s c⟩
  | shiftOut hd hc =>
    obtain ⟨d, hd', rfl⟩ := mem_outNames_iff.mp hd
    obtain ⟨c, rfl, hc'⟩ := hc.exists_bitCount
    exact ⟨_, .shiftOut hd' hc', toNat_word_shiftOut d c⟩
  | push hq =>
    obtain ⟨rfl, rfl⟩ := queueFlags_iff.mp hq
    exact ⟨_, .push _, toNat_word_push _ _⟩
  | pull hq =>
    obtain ⟨rfl, rfl⟩ := queueFlags_iff.mp hq
    exact ⟨_, .pull _, toNat_word_pull _ _⟩
  | mov hd hs =>
    obtain ⟨d, hd', rfl⟩ := mem_movDestinationNames_iff.mp hd
    obtain ⟨s, hs', rfl⟩ := mem_movSourceNames_iff.mp hs
    exact ⟨_, .mov hd' hs', toNat_word_mov d none s⟩
  | movApart hd ho hs =>
    obtain ⟨d, hd', rfl⟩ := mem_movDestinationNames_iff.mp hd
    obtain ⟨o, ho', rfl⟩ := mem_operatorNames_iff.mp ho
    obtain ⟨s, hs', rfl⟩ := mem_movSourceNames_iff.mp hs
    exact ⟨_, .movApart hd' ho' hs', toNat_word_mov d (some o) s⟩
  | movJoined hd ho hs =>
    obtain ⟨d, hd', rfl⟩ := mem_movDestinationNames_iff.mp hd
    obtain ⟨o, ho', rfl⟩ := mem_operatorNames_iff.mp ho
    obtain ⟨s, hs', rfl⟩ := mem_movSourceNames_iff.mp hs
    exact ⟨_, .movJoined hd' ho' hs', toNat_word_mov d (some o) s⟩
  | irq hn relative =>
    obtain ⟨n, rfl, hn'⟩ := hn.exists_fin
    exact ⟨_, .irq hn' relative, toNat_word_irq .set n relative⟩
  | irqMode mode hn relative =>
    obtain ⟨n, rfl, hn'⟩ := hn.exists_fin
    refine ⟨_, .irqMode mode hn' relative, ?_⟩
    rw [toNat_word_irq, toNat_code_ofToken]
  | set hd hn =>
    obtain ⟨d, hd', rfl⟩ := mem_setNames_iff.mp hd
    obtain ⟨n, rfl, hn'⟩ := hn.exists_fin
    exact ⟨_, .set hd' hn', toNat_word_set d n⟩

/-- The table lists exactly the instructions that are read, with their words. -/
theorem listed_iff (hlabels : HasWordIndices labels) {tokens : List String} :
    Listed labels tokens n ↔ ∃ i, read labels tokens = .ok i ∧ i.word.toNat = n := by
  constructor
  · intro h
    obtain ⟨i, hspells, hword⟩ := exists_spells_of_listed hlabels h
    exact ⟨i, read_eq_ok_iff.mpr hspells, hword⟩
  · rintro ⟨i, hread, rfl⟩
    exact listed_of_spells hlabels (read_eq_ok_iff.mp hread)

end PioKit.Instruction

namespace PioKit.Statement

open Instruction (HasWordIndices Listed listed_iff)

variable {labels : LabelTable} {width : Nat} {s : Statement}

theorem field_lt_of_modifiers {m : Modifiers} (h : s.modifiers width = .ok m) :
    m.field width < 2 ^ 6 := by
  obtain ⟨hd, hs⟩ := modifiers_eq_ok_iff.mp h
  have hdiv := Modifiers.field_div_eq hd hs
  split at hdiv <;> omega

theorem toNat_shiftLeft_eight {n : Nat} (h : n < 2 ^ 6) :
    (BitVec.ofNat 16 n <<< 8).toNat = n <<< 8 := by
  rw [BitVec.toNat_shiftLeft, BitVec.toNat_ofNat, Nat.shiftLeft_eq, Nat.shiftLeft_eq]
  omega

theorem encode_eq_ok_iff_read {m : Modifiers} (h : s.modifiers width = .ok m) {w : Word} :
    s.encode labels width = .ok w ↔
      ∃ i, Instruction.read labels s.core = .ok i ∧ w.toNat = i.word.toNat ||| m.field width <<< 8 := by
  rw [encode, h, ← toNat_shiftLeft_eight (field_lt_of_modifiers h)]
  simp only [← BitVec.toNat_or, BitVec.toNat_inj]
  show (Instruction.read labels s.core >>= _) = _ ↔ _
  rw [bind_eq_ok_iff]
  simp only [pure, Except.pure, Except.ok.injEq, eq_comm]

/-- A statement is accepted exactly if its modifiers are and the table lists its instruction, and then
the modifiers stand above the operands of the word in the table. -/
theorem encode_eq_ok_iff_listed (hlabels : HasWordIndices labels) (width : Nat) (s : Statement) :
    (∀ w, s.bare.encode labels width = .ok w ↔ Listed labels s.core w.toNat) ∧
      ∀ m, s.modifiers width = .ok m → ∀ w, s.encode labels width = .ok w ↔
        ∃ n, Listed labels s.core n ∧ w.toNat = n ||| m.field width <<< 8 := by
  constructor
  · intro w
    have hbare : s.bare.modifiers width = .ok ⟨0, 0⟩ := rfl
    rw [encode_eq_ok_iff_read hbare, listed_iff hlabels, Modifiers.field_zero]
    simp only [Nat.zero_shiftLeft, Nat.or_zero, eq_comm]
    rfl
  · intro m hm w
    rw [encode_eq_ok_iff_read hm]
    constructor
    · rintro ⟨i, hread, hw⟩
      exact ⟨_, (listed_iff hlabels).mpr ⟨i, hread, rfl⟩, hw⟩
    · rintro ⟨n, hlisted, hw⟩
      obtain ⟨i, hread, rfl⟩ := (listed_iff hlabels).mp hlisted
      exact ⟨i, hread, hw⟩

/-- A jump to the last address there is, with a delay; a label beyond the signed range is refused. -/
theorem listed_jmp_end_not_far :
    let labels : LabelTable := ⟨[⟨"far", 0x8000000000000000, 2⟩, ⟨"end", 31, 1⟩], by decide⟩
    HasWordIndices labels ∧
      (∃ n, Listed labels ["jmp", "x--", "end"] n ∧ 0x035F = n ||| 3 <<< 8) ∧
      ∀ w : Word, ¬ Listed labels ["jmp", "far"] w.toNat := by
  intro labels
  have hlabels : HasWordIndices labels := by
    intro label hlabel
    simp only [labels, List.mem_cons, List.not_mem_nil, or_false] at hlabel
    rcases hlabel with rfl | rfl <;> decide
  have hdelay := (encode_eq_ok_iff_listed hlabels 0 (ofTokens ["jmp", "x--", "end", "[3]"])).2
  have hfar := (encode_eq_ok_iff_listed hlabels 0 (ofTokens ["jmp", "far"])).1
  refine ⟨hlabels, (hdelay ⟨3, 0⟩ rfl 0x035F).mp rfl, fun w hlisted => ?_⟩
  have hok := (hfar w).mpr hlisted
  have herror : (ofTokens ["jmp", "far"]).bare.encode labels 0 =
      .error (.outOfRange .jumpTarget (-0x8000000000000000) 0 31) := rfl
  rw [herror] at hok
  cases hok

end PioKit.Statement
