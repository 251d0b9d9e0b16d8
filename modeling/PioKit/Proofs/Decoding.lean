import PioKit.Proofs.Field

/-!
# Reading a word back

What a word says about the line it comes from. Every instruction other than `wait` can be read back
from its opcode and its operands: the codes of each kind of operand are distinct, the fields do not
overlap, and the bit that tells `pull` from `push` is the only one the two opcode mates differ in. With
a side-set value that fits its bits, the modifiers can be read back as well.

A `wait` keeps its polarity, whether its source is `irq`, and its index modulo 16. The rest shares bit
4: it is set for the source `pin`, for an index from 16 on and for a relative index.
-/

namespace PioKit

/-! ## Codes -/

theorem append_inj {n m : Nat} {x x' : BitVec n} {y y' : BitVec m} (h : x ++ y = x' ++ y') :
    x = x' ∧ y = y' := by
  constructor
  · rw [← Word.extractLsb'_width_append x y, h, Word.extractLsb'_width_append]
  · rw [← Word.extractLsb'_zero_append x y, h, Word.extractLsb'_zero_append]

theorem JumpCondition.code_injective {a b : JumpCondition} (h : a.code = b.code) : a = b := by
  cases a <;> cases b <;> first | rfl | exact absurd h (by decide)

theorem ShiftInSource.code_injective {a b : ShiftInSource} (h : a.code = b.code) : a = b := by
  cases a <;> cases b <;> first | rfl | exact absurd h (by decide)

theorem ShiftOutDestination.code_injective {a b : ShiftOutDestination} (h : a.code = b.code) :
    a = b := by
  cases a <;> cases b <;> first | rfl | exact absurd h (by decide)

theorem MoveDestination.code_injective {a b : MoveDestination} (h : a.code = b.code) : a = b := by
  cases a <;> cases b <;> first | rfl | exact absurd h (by decide)

theorem MoveSource.code_injective {a b : MoveSource} (h : a.code = b.code) : a = b := by
  cases a <;> cases b <;> first | rfl | exact absurd h (by decide)

theorem SetDestination.code_injective {a b : SetDestination} (h : a.code = b.code) : a = b := by
  cases a <;> cases b <;> first | rfl | exact absurd h (by decide)

theorem IrqMode.code_injective {a b : IrqMode} (h : a.code = b.code) : a = b := by
  cases a <;> cases b <;> first | rfl | exact absurd h (by decide)

theorem MoveOperator.codeOf_injective {a b : Option MoveOperator} (h : codeOf a = codeOf b) :
    a = b := by
  rcases a with - | - | - <;> rcases b with - | - | - <;> first | rfl | exact absurd h (by decide)

theorem ofNat_fin_injective {bits bound : Nat} (hb : bound ≤ 2 ^ bits) {a b : Fin bound}
    (h : BitVec.ofNat bits a = BitVec.ofNat bits b) : a = b := by
  have hmod := congrArg BitVec.toNat h
  rw [BitVec.toNat_ofNat, BitVec.toNat_ofNat, Nat.mod_eq_of_lt (a.isLt.trans_le hb),
    Nat.mod_eq_of_lt (b.isLt.trans_le hb)] at hmod
  exact Fin.ext hmod

theorem ofBool_injective {a b : Bool} (h : BitVec.ofBool a = BitVec.ofBool b) : a = b := by
  cases a <;> cases b <;> first | rfl | exact absurd h (by decide)

/-- The code 0 stands for 32, which no smaller count has. -/
theorem BitCount.code_injective {a b : BitCount} (h : a.code = b.code) : a = b := by
  obtain ⟨n, hn, hn'⟩ := a
  obtain ⟨m, hm, hm'⟩ := b
  have hmod := congrArg BitVec.toNat h
  simp only [code, BitVec.toNat_ofNat] at hmod
  obtain rfl : n = m := by omega
  rfl

/-! ## Instructions -/

theorem Mnemonic.mates_of_opcode_eq {a b : Mnemonic} (h : a.opcode = b.opcode) :
    a = b ∨ a = .push ∧ b = .pull ∨ a = .pull ∧ b = .push ∨ a = .nop ∨ b = .nop := by
  cases a <;> cases b <;> first | decide | exact absurd h (by decide)

namespace Instruction

theorem mnemonic_ne_nop (i : Instruction) : i.mnemonic ≠ .nop := by
  cases i <;> nofun

theorem operands_push_ne_pull {i j : Instruction} (hi : i.mnemonic = .push)
    (hj : j.mnemonic = .pull) : i.operands ≠ j.operands := by
  intro h
  cases i <;> cases hi
  cases j <;> cases hj
  -- both flags and the zeros below them fall off; the bit of the direction is left
  obtain ⟨h, -⟩ := append_inj h
  obtain ⟨h, -⟩ := append_inj h
  obtain ⟨h, -⟩ := append_inj h
  exact absurd h (by decide)

/-- The opcode and the operands determine the mnemonic of an instruction. -/
theorem mnemonic_eq {i j : Instruction} (ho : i.mnemonic.opcode = j.mnemonic.opcode)
    (h : i.operands = j.operands) : i.mnemonic = j.mnemonic := by
  rcases Mnemonic.mates_of_opcode_eq ho with heq | ⟨hi, hj⟩ | ⟨hi, hj⟩ | hi | hj
  · exact heq
  · exact absurd h (operands_push_ne_pull hi hj)
  · exact absurd h.symm (operands_push_ne_pull hj hi)
  · exact absurd hi (mnemonic_ne_nop i)
  · exact absurd hj (mnemonic_ne_nop j)

/-- The operands determine an instruction other than `wait` of a given mnemonic. -/
theorem eq_of_operands {i j : Instruction} (hm : i.mnemonic = j.mnemonic)
    (hw : i.mnemonic ≠ .wait) (h : i.operands = j.operands) : i = j := by
  cases i with
  | jmp c t =>
    cases j <;> cases hm
    obtain ⟨hc, ht⟩ := append_inj h
    rw [JumpCondition.code_injective hc, ofNat_fin_injective (by decide) ht]
  | wait => exact absurd rfl hw
  | shiftIn s c =>
    cases j <;> cases hm
    obtain ⟨hs, hc⟩ := append_inj h
    rw [ShiftInSource.code_injective hs, BitCount.code_injective hc]
  | shiftOut d c =>
    cases j <;> cases hm
    obtain ⟨hd, hc⟩ := append_inj h
    rw [ShiftOutDestination.code_injective hd, BitCount.code_injective hc]
  | push c b =>
    cases j <;> cases hm
    obtain ⟨h, -⟩ := append_inj h
    obtain ⟨h, hb⟩ := append_inj h
    obtain ⟨-, hc⟩ := append_inj h
    rw [ofBool_injective hc, ofBool_injective hb]
  | pull c b =>
    cases j <;> cases hm
    obtain ⟨h, -⟩ := append_inj h
    obtain ⟨h, hb⟩ := append_inj h
    obtain ⟨-, hc⟩ := append_inj h
    rw [ofBool_injective hc, ofBool_injective hb]
  | mov d o s =>
    cases j <;> cases hm
    obtain ⟨h, hs⟩ := append_inj h
    obtain ⟨hd, ho⟩ := append_inj h
    rw [MoveDestination.code_injective hd, MoveOperator.codeOf_injective ho,
      MoveSource.code_injective hs]
  | irq m n r =>
    cases j <;> cases hm
    obtain ⟨h, hn⟩ := append_inj h
    obtain ⟨h, -⟩ := append_inj h
    obtain ⟨h, hr⟩ := append_inj h
    obtain ⟨-, hm⟩ := append_inj h
    rw [IrqMode.code_injective hm, ofNat_fin_injective (by decide) hn, ofBool_injective hr]
  | set d n =>
    cases j <;> cases hm
    obtain ⟨hd, hn⟩ := append_inj h
    rw [SetDestination.code_injective hd, ofNat_fin_injective (by decide) hn]

/-- The operands of a `wait` with the overlap in bit 4 written out. -/
theorem waitOperands_eq_append (p : Fin 2) (s : WaitSource) (n : Fin 32) (r : Bool) :
    waitOperands p s n r =
      BitVec.ofNat 1 p ++ (0 : BitVec 1) ++ BitVec.ofBool (s = .irq) ++
        BitVec.ofBool (s = .pin ∨ 16 ≤ n.val ∨ r = true) ++ BitVec.ofNat 4 n := by
  cases s <;> revert p n r <;> decide

theorem waitOperands_eq_iff {p p' : Fin 2} {s s' : WaitSource} {n n' : Fin 32} {r r' : Bool} :
    waitOperands p s n r = waitOperands p' s' n' r' ↔
      p = p' ∧ n.val % 16 = n'.val % 16 ∧ (s = .irq ↔ s' = .irq) ∧
        (s = .pin ∨ 16 ≤ n.val ∨ r = true ↔ s' = .pin ∨ 16 ≤ n'.val ∨ r' = true) := by
  rw [waitOperands_eq_append, waitOperands_eq_append]
  constructor
  · intro h
    obtain ⟨h, hn⟩ := append_inj h
    obtain ⟨h, hfour⟩ := append_inj h
    obtain ⟨h, hirq⟩ := append_inj h
    obtain ⟨hp, -⟩ := append_inj h
    have hmod := congrArg BitVec.toNat hn
    rw [BitVec.toNat_ofNat, BitVec.toNat_ofNat] at hmod
    exact ⟨ofNat_fin_injective (by decide) hp, hmod, decide_eq_decide.mp (ofBool_injective hirq),
      decide_eq_decide.mp (ofBool_injective hfour)⟩
  · rintro ⟨rfl, hn, hirq, hfour⟩
    have hlow : BitVec.ofNat 4 n = BitVec.ofNat 4 n' := by
      apply BitVec.eq_of_toNat_eq
      rw [BitVec.toNat_ofNat, BitVec.toNat_ofNat]
      exact hn
    rw [hlow, decide_eq_decide.mpr hirq, decide_eq_decide.mpr hfour]

/-- Plain indices below 16 leave bit 4 to the source. -/
theorem wait_eq_of_low_index {p p' : Fin 2} {s s' : WaitSource} {n n' : Fin 32}
    (hn : n.val < 16) (hn' : n'.val < 16)
    (h : waitOperands p s n false = waitOperands p' s' n' false) : p = p' ∧ s = s' ∧ n = n' := by
  obtain ⟨hp, hmod, hirq, hfour⟩ := waitOperands_eq_iff.mp h
  -- nothing but the source can set bit 4
  have hpin : s = .pin ↔ s' = .pin := by
    simpa [Nat.not_le.mpr hn, Nat.not_le.mpr hn'] using hfour
  refine ⟨hp, ?_, Fin.ext (by omega)⟩
  cases s <;> cases s' <;> simp_all

theorem Spells.head_eq_wait_iff {labels : LabelTable} {tokens : List String} {i : Instruction}
    (h : Spells labels tokens i) : tokens.head? = some "wait" ↔ i.mnemonic = .wait := by
  cases h <;> simp [mnemonic, Instruction.nop]

theorem eq_wait_of_mnemonic {i : Instruction} (h : i.mnemonic = .wait) :
    ∃ p s n r, i = .wait p s n r := by
  cases i <;> cases h
  exact ⟨_, _, _, _, rfl⟩

end Instruction

/-! ## Modifiers -/

namespace Modifiers

/-- Delay and side-set value are the remainder and the quotient of the field. -/
theorem eq_of_field_eq {width : Nat} {m m' : Modifiers} (hd : m.delay < 2 ^ (5 - width))
    (hd' : m'.delay < 2 ^ (5 - width)) (h : m.field width = m'.field width) : m = m' := by
  rw [field_eq_add hd, field_eq_add hd'] at h
  have hpos : 0 < 2 ^ (5 - width) := Nat.two_pow_pos _
  have hdelay : m.delay = m'.delay := by
    have hmod := congrArg (· % 2 ^ (5 - width)) h
    simpa [Nat.mod_eq_of_lt hd, Nat.mod_eq_of_lt hd'] using hmod
  have hside : m.side = m'.side := by
    rw [hdelay, Nat.add_right_cancel_iff] at h
    exact Nat.eq_of_mul_eq_mul_right hpos h
  cases m
  cases m'
  simp_all

end Modifiers

/-! ## Lines -/

namespace PendingInstruction

open Instruction (Spells)
open Statement (DelayIs IsBare SideIs)

theorem encode_eq_ok_iff_of_isBare {labels : LabelTable} {width : Nat} {i : PendingInstruction}
    {w : Word} (h : IsBare (Source.tokens i.text)) :
    i.encode labels width = .ok w ↔
      ∃ instr, Spells labels (Source.tokens i.text) instr ∧ w = instr.word := by
  have hstatement : i.statement = ⟨Source.tokens i.text, none, none⟩ :=
    Statement.ofTokens_of_isBare h
  rw [encode_eq_ok_iff]
  constructor
  · intro hw
    obtain ⟨instr, -, hspells, -, -⟩ := Statement.encode_eq_ok_iff.mp hw
    have hbare : i.statement.bare = i.statement := by rw [hstatement]; rfl
    rw [← hbare, Statement.encode_bare hspells] at hw
    rw [hstatement] at hspells
    exact ⟨instr, hspells, (Except.ok.inj hw).symm⟩
  · rintro ⟨instr, hspells, rfl⟩
    rw [hstatement]
    exact Statement.encode_bare (s := ⟨Source.tokens i.text, none, none⟩) hspells

/-- Two accepted `wait` lines without modifiers share a word exactly if they agree on the polarity,
on the index modulo 16, on whether the source is `irq`, and on whether anything sets bit 4. -/
theorem wait_word_eq_iff {labels labels' : LabelTable} {width width' : Nat}
    {i j : PendingInstruction} {w w' : Word} (hi : i.encode labels width = .ok w)
    (hj : j.encode labels' width' = .ok w') (hiw : (Source.tokens i.text).head? = some "wait")
    (hjw : (Source.tokens j.text).head? = some "wait") (hib : IsBare (Source.tokens i.text))
    (hjb : IsBare (Source.tokens j.text)) :
    ∃ p s n r p' s' n' r', Spells labels (Source.tokens i.text) (.wait p s n r) ∧
      Spells labels' (Source.tokens j.text) (.wait p' s' n' r') ∧
      (w = w' ↔ p = p' ∧ n.val % 16 = n'.val % 16 ∧ (s = .irq ↔ s' = .irq) ∧
        (s = .pin ∨ 16 ≤ n.val ∨ r = true ↔ s' = .pin ∨ 16 ≤ n'.val ∨ r' = true)) ∧
      (n.val < 16 → n'.val < 16 → r = false → r' = false → w = w' →
        p = p' ∧ s = s' ∧ n = n') := by
  obtain ⟨a, ha, rfl⟩ := (encode_eq_ok_iff_of_isBare hib).mp hi
  obtain ⟨b, hb, rfl⟩ := (encode_eq_ok_iff_of_isBare hjb).mp hj
  obtain ⟨p, s, n, r, rfl⟩ := Instruction.eq_wait_of_mnemonic (ha.head_eq_wait_iff.mp hiw)
  obtain ⟨p', s', n', r', rfl⟩ := Instruction.eq_wait_of_mnemonic (hb.head_eq_wait_iff.mp hjw)
  have hword : (Instruction.wait p s n r).word = (Instruction.wait p' s' n' r').word ↔
      Instruction.waitOperands p s n r = Instruction.waitOperands p' s' n' r' := by
    constructor
    · exact fun h => (append_inj h).2
    · exact fun h => congrArg (fun x : BitVec 8 => (1 : BitVec 3) ++ (0 : BitVec 5) ++ x) h
  refine ⟨p, s, n, r, p', s', n', r', ha, hb, ?_, ?_⟩
  · rw [hword, Instruction.waitOperands_eq_iff]
  · rintro hn hn' rfl rfl h
    exact Instruction.wait_eq_of_low_index hn hn' (hword.mp h)

/-- The relative `irq` 2 and the `irq` 18 share a word, as the statement says they must. -/
theorem wait_word_eq_iff_irq :
    (encode .empty 0 ⟨1, "wait 1 irq 2 rel"⟩ = .ok 0x20B2 ∧
      encode .empty 0 ⟨2, "wait 1 irq 18"⟩ = .ok 0x20B2) ∧
    ∃ p s n r p' s' n' r', Spells .empty (Source.tokens "wait 1 irq 2 rel") (.wait p s n r) ∧
      Spells .empty (Source.tokens "wait 1 irq 18") (.wait p' s' n' r') ∧
      ((0x20B2 : Word) = 0x20B2 ↔ p = p' ∧ n.val % 16 = n'.val % 16 ∧ (s = .irq ↔ s' = .irq) ∧
        (s = .pin ∨ 16 ≤ n.val ∨ r = true ↔ s' = .pin ∨ 16 ≤ n'.val ∨ r' = true)) ∧
      (n.val < 16 → n'.val < 16 → r = false → r' = false → (0x20B2 : Word) = 0x20B2 →
        p = p' ∧ s = s' ∧ n = n') := by
  have hi : encode .empty 0 ⟨1, "wait 1 irq 2 rel"⟩ = .ok 0x20B2 := rfl
  have hj : encode .empty 0 ⟨2, "wait 1 irq 18"⟩ = .ok 0x20B2 := rfl
  exact ⟨⟨hi, hj⟩, wait_word_eq_iff hi hj (by rfl) (by rfl) ⟨by rfl, by rfl⟩ ⟨by rfl, by rfl⟩⟩

/-- Different sources and indices give one word: bit 4 of the index is the code of `pin`. -/
theorem wait_gpio_sixteen_eq_wait_pin_zero :
    encode .empty 0 ⟨1, "wait 0 gpio 16"⟩ = .ok 0x2010 ∧
    encode .empty 0 ⟨2, "wait 0 pin 0"⟩ = .ok 0x2010 ∧
    IsBare (Source.tokens "wait 0 gpio 16") ∧ IsBare (Source.tokens "wait 0 pin 0") ∧
    Spells .empty (Source.tokens "wait 0 gpio 16") (.wait 0 .gpio 16 false) ∧
    Spells .empty (Source.tokens "wait 0 pin 0") (.wait 0 .pin 0 false) ∧
    WaitSource.gpio ≠ WaitSource.pin ∧ (16 : Fin 32) ≠ 0 := by
  refine ⟨by rfl, by rfl, ⟨by rfl, by rfl⟩, ⟨by rfl, by rfl⟩, ?_, ?_, by decide, by decide⟩
  · exact Instruction.read_eq_ok_iff.mp (by rfl)
  · exact Instruction.read_eq_ok_iff.mp (by rfl)

/-- The line stands for the instruction with these values of its modifiers. -/
structure Means (labels : LabelTable) (width : Nat) (i : PendingInstruction)
    (instruction : Instruction) (v : Modifiers) : Prop where
  /-- What is left of the tokens without the modifiers spells the instruction. -/
  core : Spells labels i.statement.core instruction
  /-- The delay, 0 if there is none. -/
  delay : DelayIs width i.statement.delay v.delay
  /-- The side-set value, 0 if there is none. -/
  side : SideIs width i.statement.side v.side

/-- A side-set value that fits its bits leaves the opcode alone, so the parts of the word are the
parts of the line. -/
theorem means_of_encode {labels : LabelTable} {width : Nat} {i : PendingInstruction} {w : Word}
    (hwidth : width ≤ 5) (h : i.encode labels width = .ok w)
    (hside : ∀ token n, i.statement.side = some token → Instruction.IsNumeral token n →
      n ≤ 2 ^ width - 1) :
    ∃ instruction v, Means labels width i instruction v ∧ v.field width < 2 ^ 5 ∧
      w.opcode = instruction.mnemonic.opcode ∧ w.field = BitVec.ofNat 5 (v.field width) ∧
      w.operands = instruction.operands := by
  obtain ⟨instruction, v, hspells, hv, rfl⟩ := Statement.encode_eq_ok_iff.mp (encode_eq_ok_iff.mp h)
  obtain ⟨hdelay, hsides⟩ := Statement.modifiers_eq_ok_iff.mp hv
  have hpos : 0 < 2 ^ width := Nat.two_pow_pos _
  have hs : v.side < 2 ^ width := by
    cases hopt : i.statement.side with
    | none =>
      rw [hopt] at hsides
      exact hsides ▸ hpos
    | some token =>
      rw [hopt] at hsides
      have := hside token v.side hopt hsides.1
      omega
  have hfield : v.field width < 2 ^ 5 := Modifiers.field_lt hwidth hdelay.lt hs
  refine ⟨instruction, v, ⟨hspells, hdelay, hsides⟩, hfield, ?_, ?_, ?_⟩
  · rw [Word.opcode_append, Nat.div_eq_of_lt hfield]
    simp
  · rw [Word.field_append]
  · rw [Word.operands_append]

/-- A line that shares its word with a line other than `wait` means the same, if their side-set
values fit their bits. -/
theorem means_eq_of_word_eq {labels : LabelTable} {width : Nat} {i j : PendingInstruction} {w : Word}
    (hwidth : width ≤ 5) (hi : i.encode labels width = .ok w) (hj : j.encode labels width = .ok w)
    (hiw : (Source.tokens i.text).head? ≠ some "wait")
    (his : ∀ token n, i.statement.side = some token → Instruction.IsNumeral token n →
      n ≤ 2 ^ width - 1)
    (hjs : ∀ token n, j.statement.side = some token → Instruction.IsNumeral token n →
      n ≤ 2 ^ width - 1) :
    ∃ instruction v, Means labels width i instruction v ∧ Means labels width j instruction v := by
  obtain ⟨a, v, ha, hf, hop, hfield, hops⟩ := means_of_encode hwidth hi his
  obtain ⟨b, v', hb, hf', hop', hfield', hops'⟩ := means_of_encode hwidth hj hjs
  have hoperands : a.operands = b.operands := hops.symm.trans hops'
  have hmnemonic : a.mnemonic = b.mnemonic :=
    Instruction.mnemonic_eq (hop.symm.trans hop') hoperands
  have hnotwait : a.mnemonic ≠ .wait := by
    intro hwait
    obtain ⟨token, operands, -, hcore, -, -⟩ := ha.core.head
    have hhead : i.statement.core.head? = some "wait" := ha.core.head_eq_wait_iff.mpr hwait
    rw [hcore] at hhead
    cases hhead
    exact hiw (Statement.head?_of_core_eq_cons hcore)
  obtain rfl : a = b := Instruction.eq_of_operands hmnemonic hnotwait hoperands
  -- both values fit the field, so the five bits of the word determine them
  have hv : v = v' := by
    have hmod := congrArg BitVec.toNat (hfield.symm.trans hfield')
    rw [BitVec.toNat_ofNat, BitVec.toNat_ofNat, Nat.mod_eq_of_lt hf, Nat.mod_eq_of_lt hf'] at hmod
    exact Modifiers.eq_of_field_eq ha.delay.lt hb.delay.lt hmod
  subst hv
  exact ⟨a, v, ha, hb⟩

theorem side_le_of_isNumeral {s : Statement} {token : String} {n bound : Nat}
    (hs : s.side = some token) (hn : Instruction.IsNumeral token n) (hle : n ≤ bound) :
    ∀ token' n', s.side = some token' → Instruction.IsNumeral token' n' → n' ≤ bound := by
  intro token' n' hs' hn'
  rw [hs] at hs'
  cases hs'
  rw [Instruction.IsNumeral, hn, Option.some.injEq] at hn'
  omega

/-- A `nop` and a `mov` of `y` to itself share their word and their meaning. -/
theorem means_eq_nop_mov :
    (encode .empty 1 ⟨1, "nop side 1 [3]"⟩ = .ok 0xB342 ∧
      encode .empty 1 ⟨2, "mov y, y side 0b1 [0x3]"⟩ = .ok 0xB342) ∧
    ∃ instruction v, Means .empty 1 ⟨1, "nop side 1 [3]"⟩ instruction v ∧
      Means .empty 1 ⟨2, "mov y, y side 0b1 [0x3]"⟩ instruction v := by
  have hi : encode .empty 1 ⟨1, "nop side 1 [3]"⟩ = .ok 0xB342 := rfl
  have hj : encode .empty 1 ⟨2, "mov y, y side 0b1 [0x3]"⟩ = .ok 0xB342 := rfl
  have hnop : (Source.tokens "nop side 1 [3]").head? = some "nop" := rfl
  have his : (statement ⟨1, "nop side 1 [3]"⟩).side = some "1" := rfl
  have hjs : (statement ⟨2, "mov y, y side 0b1 [0x3]"⟩).side = some "0b1" := rfl
  have hone : Instruction.IsNumeral "1" 1 := rfl
  have hone' : Instruction.IsNumeral "0b1" 1 := rfl
  refine ⟨⟨hi, hj⟩, means_eq_of_word_eq (by decide) hi hj ?_ ?_ ?_⟩
  · rw [hnop]
    decide
  · exact side_le_of_isNumeral his hone (by decide)
  · exact side_le_of_isNumeral hjs hone' (by decide)

end PendingInstruction

end PioKit
