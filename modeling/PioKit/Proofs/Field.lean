import Mathlib.Tactic.Ring
import PioKit.Assembly
import PioKit.Proofs.Grammar

/-!
# The delay/side-set field of a word

A word is its opcode, the field that delay and side-set value share and its operands. Encoding "ors"
the value of the modifiers into the word of the bare instruction, so the operands always stay as they
are, and the opcode stays unless the value needs a sixth bit. That happens for one side-set value only:
the bound `2 ^ width` itself, which is then added to the lowest bit of the opcode.
-/

namespace PioKit

namespace Word

/-- Bits 13 to 15. -/
def opcode (w : Word) : BitVec 3 :=
  w.extractLsb' 13 3

/-- Bits 8 to 12. -/
def field (w : Word) : BitVec 5 :=
  w.extractLsb' 8 5

/-- Bits 0 to 7. -/
def operands (w : Word) : BitVec 8 :=
  w.extractLsb' 0 8

variable (o : BitVec 3) (f : BitVec 5) (x : BitVec 8)

@[simp] theorem operands_append : operands (o ++ f ++ x) = x :=
  extractLsb'_zero_append (o ++ f) x

@[simp] theorem field_append : field (o ++ f ++ x) = f := by
  show (o ++ f ++ x).extractLsb' 8 5 = f
  apply BitVec.eq_of_getLsbD_eq
  intro k hk
  have h8 : ¬ 8 + k < 8 := by omega
  rw [BitVec.getLsbD_extractLsb', BitVec.getLsbD_append, BitVec.getLsbD_append]
  simp [h8, hk]

@[simp] theorem opcode_append : opcode (o ++ f ++ x) = o := by
  show (o ++ f ++ x).extractLsb' 13 3 = o
  apply BitVec.eq_of_getLsbD_eq
  intro k hk
  have h8 : ¬ 13 + k < 8 := by omega
  have h13 : ¬ 13 + k - 8 < 5 := by omega
  have hk' : 13 + k - 8 - 5 = k := by omega
  rw [BitVec.getLsbD_extractLsb', BitVec.getLsbD_append, BitVec.getLsbD_append]
  simp [h8, h13, hk', hk]

/-- A value shifted above the operands fills the field, and what does not fit reaches the opcode. -/
theorem shiftLeft_eq_append (n : Nat) :
    BitVec.ofNat 16 n <<< 8 = BitVec.ofNat 3 (n / 2 ^ 5) ++ BitVec.ofNat 5 n ++ (0 : BitVec 8) := by
  apply BitVec.eq_of_getLsbD_eq
  intro k hk
  have hdiv : (n / 2 ^ 5).testBit (k - 8 - 5) = n.testBit (k - 8 - 5 + 5) :=
    Nat.testBit_div_two_pow n (k - 8 - 5)
  simp only [BitVec.getLsbD_append, BitVec.getLsbD_shiftLeft, BitVec.getLsbD_ofNat, hdiv]
  by_cases h8 : k < 8
  · simp [h8]
  · by_cases h13 : k - 8 < 5
    · have : k - 8 < 16 := by omega
      simp [h8, h13, hk, this]
    · have hk13 : k - 8 - 5 + 5 = k - 8 := by omega
      have h16 : k - 8 - 5 < 3 := by omega
      have : k - 8 < 16 := by omega
      simp [h8, h13, hk, hk13, h16, this]

end Word

namespace Mnemonic

@[simp] theorem opcode_template (m : Mnemonic) : m.template.opcode = m.opcode :=
  Word.opcode_append _ _ _

end Mnemonic

namespace Instruction

@[simp] theorem opcode_word (i : Instruction) : i.word.opcode = i.mnemonic.opcode :=
  Word.opcode_append _ _ _

@[simp] theorem field_word (i : Instruction) : i.word.field = 0 :=
  Word.field_append _ _ _

@[simp] theorem operands_word (i : Instruction) : i.word.operands = i.operands :=
  Word.operands_append _ _ _

/-- The three parts of a word into which a value was "ored" above the operands. -/
theorem word_or_shiftLeft (i : Instruction) (n : Nat) :
    i.word ||| BitVec.ofNat 16 n <<< 8 =
      (i.mnemonic.opcode ||| BitVec.ofNat 3 (n / 2 ^ 5)) ++ BitVec.ofNat 5 n ++ i.operands := by
  rw [Word.shiftLeft_eq_append, word, BitVec.or_append, BitVec.or_append]
  simp

/-- The first token of an instruction names a mnemonic with the opcode of the instruction. -/
theorem Spells.head {labels : LabelTable} {tokens : List String} {i : Instruction}
    (h : Spells labels tokens i) :
    ∃ token operands m, tokens = token :: operands ∧ Mnemonic.ofToken? token = some m ∧
      m.opcode = i.mnemonic.opcode := by
  cases h <;> exact ⟨_, _, _, rfl, rfl, rfl⟩

end Instruction

namespace Statement

open Instruction (IsNumeral Spells)

/-! ## Cutting the modifiers off -/

theorem cutDelay_isPrefix (tokens : List String) : (cutDelay tokens).1 <+: tokens := by
  unfold cutDelay
  split
  · split
    · exact List.dropLast_prefix tokens
    · exact List.prefix_rfl
  · exact List.prefix_rfl

theorem cutSide_isPrefix (tokens : List String) : (cutSide tokens).1 <+: tokens := by
  unfold cutSide
  split
  · next value word front hrev =>
    split
    · refine ⟨[word, value], ?_⟩
      have h := congrArg List.reverse hrev
      simpa using h.symm
    · exact List.prefix_rfl
  · exact List.prefix_rfl

/-- The instruction of a line is the front of its tokens. -/
theorem core_isPrefix (tokens : List String) : (ofTokens tokens).core <+: tokens :=
  (cutSide_isPrefix _).trans (cutDelay_isPrefix tokens)

/-- A line starts with the token that its instruction starts with. -/
theorem head?_of_core_eq_cons {tokens operands : List String} {token : String}
    (h : (ofTokens tokens).core = token :: operands) : tokens.head? = some token := by
  obtain ⟨rest, hrest⟩ := core_isPrefix tokens
  rw [← hrest, h]
  rfl

/-- The tokens carry neither a delay nor a side-set value at their end. -/
def IsBare (tokens : List String) : Prop :=
  (ofTokens tokens).side = none ∧ (ofTokens tokens).delay = none

theorem cutDelay_of_snd_eq_none {tokens : List String} (h : (cutDelay tokens).2 = none) :
    (cutDelay tokens).1 = tokens := by
  unfold cutDelay at h ⊢
  cases hlast : tokens.getLast? with
  | none => rfl
  | some last =>
    simp only [hlast] at h ⊢
    by_cases hd : isDelay last
    · simp [hd] at h
    · simp [hd]

theorem cutSide_of_snd_eq_none {tokens : List String} (h : (cutSide tokens).2 = none) :
    (cutSide tokens).1 = tokens := by
  unfold cutSide at h ⊢
  match hrev : tokens.reverse with
  | [] => rfl
  | [_] => rfl
  | value :: word :: front =>
    simp only [hrev] at h ⊢
    by_cases hs : word = "side"
    · simp [hs] at h
    · simp [hs]

theorem ofTokens_of_isBare {tokens : List String} (h : IsBare tokens) :
    ofTokens tokens = { core := tokens, side := none, delay := none } := by
  obtain ⟨hside, hdelay⟩ := h
  have htokens : (cutDelay tokens).1 = tokens := cutDelay_of_snd_eq_none hdelay
  have hcore : (cutSide (cutDelay tokens).1).1 = (cutDelay tokens).1 :=
    cutSide_of_snd_eq_none hside
  show Statement.mk _ _ _ = _
  rw [Statement.mk.injEq]
  exact ⟨hcore.trans htokens, hside, hdelay⟩

/-! ## The values of the modifiers -/

/-- The delay that the optional token stands for. -/
def DelayIs (width : Nat) : Option String → Nat → Prop
  | none, n => n = 0
  | some token, n => IsNumeral (delayNumber token) n ∧ width ≤ 5 ∧ n < 2 ^ (5 - width)

/-- The side-set value that the optional token stands for. -/
def SideIs (width : Nat) : Option String → Nat → Prop
  | none, n => n = 0
  | some token, n => IsNumeral token n ∧ width ≤ 5 ∧ n ≤ 2 ^ width

theorem le_maxDelay_iff {width n : Nat} :
    (n : Int) ≤ maxDelay width ↔ width ≤ 5 ∧ n < 2 ^ (5 - width) := by
  unfold maxDelay fieldBits
  have hpow : 1 <<< (5 - width) = 2 ^ (5 - width) := Nat.one_shiftLeft _
  split
  · next h =>
    rw [hpow]
    omega
  · omega

theorem le_maxSide_iff {width n : Nat} : (n : Int) ≤ maxSide width ↔ n ≤ 2 ^ width := by
  unfold maxSide
  rw [Nat.one_shiftLeft]
  omega

theorem delayValue_eq_ok_iff {width n : Nat} {token : String} :
    delayValue width token = .ok n ↔ DelayIs width (some token) n := by
  simp only [delayValue, bind_eq_ok_iff, Instruction.literal_read_eq_ok_iff, DelayIs, IsNumeral]
  constructor
  · rintro ⟨value, hv, h⟩
    split at h
    · next hrange =>
      cases h
      obtain ⟨n, rfl⟩ := Int.eq_ofNat_of_zero_le hrange.1
      exact ⟨hv, le_maxDelay_iff.mp hrange.2⟩
    · cases h
  · rintro ⟨hv, hle⟩
    refine ⟨_, hv, ?_⟩
    rw [if_pos ⟨Int.natCast_nonneg n, le_maxDelay_iff.mpr hle⟩]
    rfl

theorem sideValue_eq_ok_iff {width n : Nat} {token : String} :
    sideValue width token = .ok n ↔ SideIs width (some token) n := by
  simp only [sideValue, bind_eq_ok_iff, Instruction.literal_read_eq_ok_iff, SideIs, IsNumeral]
  constructor
  · rintro ⟨value, hv, h⟩
    split at h
    · next hwidth =>
      split at h
      · next hrange =>
        cases h
        obtain ⟨n, rfl⟩ := Int.eq_ofNat_of_zero_le hrange.1
        exact ⟨hv, hwidth, le_maxSide_iff.mp hrange.2⟩
      · cases h
    · cases h
  · rintro ⟨hv, hwidth, hle⟩
    refine ⟨_, hv, ?_⟩
    rw [if_pos (show width ≤ fieldBits from hwidth),
      if_pos ⟨Int.natCast_nonneg n, le_maxSide_iff.mpr hle⟩]
    rfl

/-- The delay is looked at before the side-set value. -/
theorem modifiers_eq_bind (width : Nat) (s : Statement) :
    s.modifiers width = do
      let delay ← s.delay.elim (.ok 0) (delayValue width)
      let side ← s.side.elim (.ok 0) (sideValue width)
      return { delay, side } := by
  obtain ⟨core, side, delay⟩ := s
  cases delay <;> cases side <;> rfl

/-- The modifiers of a statement are valued one by one. -/
theorem modifiers_eq_ok_iff {width : Nat} {s : Statement} {m : Modifiers} :
    s.modifiers width = .ok m ↔ DelayIs width s.delay m.delay ∧ SideIs width s.side m.side := by
  obtain ⟨core, side, delay⟩ := s
  obtain ⟨d, v⟩ := m
  cases delay with
  | none =>
    cases side with
    | none => simp [modifiers, DelayIs, SideIs, bind, Except.bind, pure, Except.pure, eq_comm]
    | some token =>
      simp [modifiers, bind_eq_ok_iff, sideValue_eq_ok_iff, DelayIs, pure, Except.pure,
        @eq_comm Nat 0, and_comm]
  | some token =>
    cases side with
    | none =>
      simp [modifiers, bind_eq_ok_iff, delayValue_eq_ok_iff, SideIs, pure, Except.pure,
        @eq_comm Nat 0]
    | some token' =>
      simp [modifiers, bind_eq_ok_iff, delayValue_eq_ok_iff, sideValue_eq_ok_iff, pure,
        Except.pure]

theorem DelayIs.lt {width n : Nat} {token : Option String} (h : DelayIs width token n) :
    n < 2 ^ (5 - width) := by
  cases token with
  | none =>
    have hn : n = 0 := h
    rw [hn]
    exact Nat.two_pow_pos _
  | some token => exact h.2.2

/-- The bound is one above what the bits of a side-set value hold. -/
theorem SideIs.le {width n : Nat} {token : Option String} (h : SideIs width token n) :
    n ≤ 2 ^ width := by
  cases token with
  | none =>
    have hn : n = 0 := h
    rw [hn]
    exact Nat.zero_le _
  | some token => exact h.2.2

theorem SideIs.eq_zero_of_lt {width n : Nat} {token : Option String} (h : SideIs width token n)
    (hwidth : 5 < width) : n = 0 := by
  cases token with
  | none => exact h
  | some token => exact absurd h.2.1 (Nat.not_le.mpr hwidth)

end Statement

namespace Modifiers

open Statement (DelayIs SideIs)

variable {width : Nat} {m : Modifiers}

theorem field_zero (width : Nat) : field width ⟨0, 0⟩ = 0 := by
  show 0 ||| 0 <<< (5 - width) = 0
  rw [Nat.zero_shiftLeft, Nat.zero_or]

/-- Delay and side-set value stand side by side in the field. -/
theorem field_eq_add (h : m.delay < 2 ^ (5 - width)) :
    m.field width = m.side * 2 ^ (5 - width) + m.delay := by
  show m.delay ||| m.side <<< (5 - width) = _
  rw [Nat.or_comm, ← Nat.shiftLeft_add_eq_or_of_lt h, Nat.shiftLeft_eq]

theorem two_pow_mul_two_pow_sub (h : width ≤ 5) : 2 ^ width * 2 ^ (5 - width) = 2 ^ 5 := by
  rw [← pow_add, Nat.add_sub_cancel' h]

/-- The field holds a delay and a side-set value that fit their bits. -/
theorem field_lt (hwidth : width ≤ 5) (hd : m.delay < 2 ^ (5 - width)) (hs : m.side < 2 ^ width) :
    m.field width < 2 ^ 5 := by
  have hmul : (m.side + 1) * 2 ^ (5 - width) ≤ 2 ^ width * 2 ^ (5 - width) :=
    Nat.mul_le_mul_right _ hs
  rw [Nat.add_mul, Nat.one_mul, two_pow_mul_two_pow_sub hwidth] at hmul
  rw [field_eq_add hd]
  omega

/-- The value of the modifiers needs a sixth bit exactly if the side-set value is the bound. -/
theorem field_div_eq {delay side : Option String} (hd : DelayIs width delay m.delay)
    (hs : SideIs width side m.side) :
    m.field width / 2 ^ 5 = if m.side = 2 ^ width then 1 else 0 := by
  have hone : 0 < 2 ^ width := Nat.two_pow_pos _
  have hdelay : m.delay < 2 ^ (5 - width) := hd.lt
  have hle : 2 ^ (5 - width) ≤ 2 ^ 5 := Nat.pow_le_pow_right (by omega) (by omega)
  by_cases hwidth : width ≤ 5
  · by_cases hbound : m.side = 2 ^ width
    · rw [if_pos hbound, field_eq_add hdelay, hbound, two_pow_mul_two_pow_sub hwidth,
        Nat.add_div_left _ (by omega), Nat.div_eq_of_lt (by omega)]
    · have hside : m.side < 2 ^ width := Nat.lt_of_le_of_ne hs.le hbound
      rw [if_neg hbound, Nat.div_eq_of_lt (field_lt hwidth hdelay hside)]
  -- no bits are left for a delay either, so the whole field is zero
  · have hside : m.side = 0 := hs.eq_zero_of_lt (by omega)
    rw [field_eq_add hdelay, hside, if_neg (by omega), Nat.zero_mul, Nat.zero_add]
    exact Nat.div_eq_of_lt (by omega)

end Modifiers

namespace Statement

open Instruction (Spells)

/-- The word of an accepted statement, part by part. -/
theorem encode_eq_ok_iff {labels : LabelTable} {width : Nat} {s : Statement} {w : Word} :
    s.encode labels width = .ok w ↔
      ∃ i m, Spells labels s.core i ∧ s.modifiers width = .ok m ∧
        w = (i.mnemonic.opcode ||| BitVec.ofNat 3 (m.field width / 2 ^ 5)) ++
          BitVec.ofNat 5 (m.field width) ++ i.operands := by
  simp only [encode, bind_eq_ok_iff, Instruction.read_eq_ok_iff, pure, Except.pure,
    Except.ok.injEq, Instruction.word_or_shiftLeft]
  constructor
  · rintro ⟨m, hm, i, hi, rfl⟩
    exact ⟨i, m, hi, hm, rfl⟩
  · rintro ⟨i, m, hi, hm, rfl⟩
    exact ⟨m, hm, i, hi, rfl⟩

/-- The statement with its modifiers taken away. -/
def bare (s : Statement) : Statement where
  core := s.core
  side := none
  delay := none

theorem encode_bare {labels : LabelTable} {width : Nat} {s : Statement} {i : Instruction}
    (h : Spells labels s.core i) : s.bare.encode labels width = .ok i.word := by
  refine encode_eq_ok_iff.mpr ⟨i, ⟨0, 0⟩, h, rfl, ?_⟩
  simp [Modifiers.field, Instruction.word]

end Statement

namespace PendingInstruction

/-- The instruction of a line with its modifiers. -/
def statement (i : PendingInstruction) : Statement :=
  Statement.ofTokens (Source.tokens i.text)

theorem encode_eq_ok_iff {labels : LabelTable} {width : Nat} {i : PendingInstruction} {w : Word} :
    i.encode labels width = .ok w ↔ i.statement.encode labels width = .ok w :=
  mapError_eq_ok_iff

/-- The word of a line beside the word of the same line without its modifiers. -/
structure Packed (labels : LabelTable) (width : Nat) (i : PendingInstruction) (w : Word)
    (m : Mnemonic) (v : Modifiers) (core : Word) : Prop where
  /-- The line starts with the mnemonic. -/
  mnemonic : (Source.tokens i.text).head?.bind Mnemonic.ofToken? = some m
  /-- The modifiers of the line have these values. -/
  values : i.statement.modifiers width = .ok v
  /-- The line without its modifiers has the word `core`. -/
  bare : i.statement.bare.encode labels width = .ok core
  /-- So has every line of the remaining tokens, unless these end in a modifier again. -/
  bare_line : ∀ (j : PendingInstruction) (width' : Nat), Source.tokens j.text = i.statement.core →
    Statement.IsBare (Source.tokens j.text) → j.encode labels width' = .ok core
  /-- Without modifiers the opcode is that of the mnemonic. -/
  bare_opcode : core.opcode = m.template.opcode
  /-- Without modifiers the field is zero. -/
  bare_field : core.field = 0
  /-- The modifiers leave the operands alone. -/
  operands : w.operands = core.operands
  /-- The modifiers fill the field. -/
  field : w.field = BitVec.ofNat 5 (v.field width)
  /-- A side-set value at its bound sets the lowest bit of the opcode; nothing else changes it. -/
  opcode : w.opcode = m.template.opcode ||| if v.side = 2 ^ width then 1 else 0
  /-- The opcode stays unless the side-set value is at its bound and the lowest bit was clear. -/
  opcode_kept : w.opcode = m.template.opcode ↔
    ¬ (v.side = 2 ^ width ∧ m.template.getLsbD 13 = false)

theorem opcode_or_eq_iff (m : Mnemonic) (p : Prop) [Decidable p] :
    (m.template.opcode ||| if p then 1 else 0) = m.template.opcode ↔
      ¬ (p ∧ m.template.getLsbD 13 = false) := by
  by_cases hp : p
  -- the lowest bit of an opcode is bit 13 of its template
  · simp only [hp, if_true, true_and]
    cases m <;> decide
  · simp [hp]

/-- Modifiers never touch the operands of an accepted line, and they touch its opcode in one case
only: the side-set value is `2 ^ width` and bit 13 of the template is clear. -/
theorem packed_of_encode {labels : LabelTable} {width : Nat} {i : PendingInstruction} {w : Word}
    (h : i.encode labels width = .ok w) : ∃ m v core, Packed labels width i w m v core := by
  obtain ⟨instr, v, hspells, hv, hw⟩ := Statement.encode_eq_ok_iff.mp (encode_eq_ok_iff.mp h)
  obtain ⟨token, operands, m, hcore, hm, hopcode⟩ := hspells.head
  obtain ⟨hdelay, hside⟩ := Statement.modifiers_eq_ok_iff.mp hv
  have hhead : (Source.tokens i.text).head? = some token := Statement.head?_of_core_eq_cons hcore
  have hwop : w.opcode = m.template.opcode ||| if v.side = 2 ^ width then 1 else 0 := by
    rw [hw, Word.opcode_append, Mnemonic.opcode_template, hopcode, Modifiers.field_div_eq hdelay hside]
    split <;> rfl
  refine ⟨m, v, instr.word, ?_⟩
  exact
    { mnemonic := by rw [hhead]; exact hm
      values := hv
      bare := Statement.encode_bare hspells
      bare_line := by
        intro j width' htokens hbare
        have hstatement : j.statement = i.statement.bare := by
          rw [statement, Statement.ofTokens_of_isBare hbare, htokens]
          rfl
        rw [encode_eq_ok_iff, hstatement]
        exact Statement.encode_bare hspells
      bare_opcode := by rw [Instruction.opcode_word, Mnemonic.opcode_template, hopcode]
      bare_field := Instruction.field_word instr
      operands := by rw [hw, Word.operands_append, Instruction.operands_word]
      field := by rw [hw, Word.field_append]
      opcode := hwop
      opcode_kept := by rw [hwop]; exact opcode_or_eq_iff m _ }

/-- A `jmp` with the side-set value 2 at width 1 has the opcode of `wait`. -/
theorem packed_jmp_side_bound :
    encode .empty 1 ⟨1, "jmp 0 side 2"⟩ = .ok 0x2000 ∧
      ∃ m v core, Packed .empty 1 ⟨1, "jmp 0 side 2"⟩ 0x2000 m v core := by
  have h : encode .empty 1 ⟨1, "jmp 0 side 2"⟩ = .ok 0x2000 := rfl
  exact ⟨h, packed_of_encode h⟩

end PendingInstruction

end PioKit
