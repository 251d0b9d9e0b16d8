import PioKit.Proofs.Modifiers

/-!
# Modifiers are checked in order and packed side by side

Behind an instruction there may stand a side-set value and a delay. The delay is looked at first, then
the width of the side-set value and then the value itself; only if all of them are in range does it
matter what the instruction is. The word is that of the instruction alone, with delay and side-set
value above its operands.

The instruction alone has the same word under every width, so a width that leaves no field is a fault
of a modifier and of nothing else.
-/

namespace PioKit

/-- An integer literal with its value. -/
structure Literal.Spelling where
  /-- The token. -/
  text : String
  /-- What it is worth. -/
  value : Int
  /-- The token spells the value. -/
  spells : Literal.parse? text = some value

namespace Statement

open Literal (Spelling)

variable {labels : LabelTable} {width : Nat} {core : List String} {s : Statement}

/-! ## The tokens of a line -/

/-- An instruction with the modifiers behind it. -/
def withModifiers (core : List String) (side delay : Option Spelling) : List String :=
  core ++ sideTokens (side.map (·.text)) ++ (delay.map fun d => bracketed d.text).toList

/-- The tokens do not end in what looks like a modifier. -/
structure EndsBare (core : List String) : Prop where
  /-- The last token does not end in a bracket. -/
  last : ∀ token, core.getLast? = some token → token.toList.getLast? ≠ some ']'
  /-- The token before it is not `side`. -/
  word : core.dropLast.getLast? ≠ some "side"

theorem EndsBare.cutDelay (h : EndsBare core) : cutDelay core = (core, none) := by
  rcases List.eq_nil_or_concat core with rfl | ⟨front, token, rfl⟩
  · rfl
  · rw [List.concat_eq_append] at h ⊢
    have hlast := h.last token List.getLast?_concat
    exact cutDelay_concat_of_not_isDelay (decide_eq_false hlast) front

theorem EndsBare.cutSide (h : EndsBare core) : cutSide core = (core, none) := by
  rcases List.eq_nil_or_concat core with rfl | ⟨front, value, rfl⟩
  · rfl
  · have hword := h.word
    rw [List.concat_eq_append] at hword ⊢
    rw [List.dropLast_concat] at hword
    rcases List.eq_nil_or_concat front with rfl | ⟨front, word, rfl⟩
    · rfl
    · have hne : word ≠ "side" := by
        rintro rfl
        exact hword (by rw [List.concat_eq_append, List.getLast?_concat])
      simp [Statement.cutSide, hne]

theorem EndsBare.ofTokens (h : EndsBare core) : ofTokens core = ⟨core, none, none⟩ := by
  rw [Statement.ofTokens, h.cutDelay]
  simp only [h.cutSide]

theorem EndsBare.cutSide_append (h : EndsBare core) (side : Option String) :
    Statement.cutSide (core ++ sideTokens side) = (core, side) := by
  cases side with
  | none =>
    rw [sideTokens, List.append_nil]
    exact h.cutSide
  | some value => exact cutSide_append_side core value

/-- Modifiers behind an instruction are cut off again, one by one. -/
theorem EndsBare.ofTokens_append (h : EndsBare core) {side delay : Option String}
    (hside : ∀ value ∈ side, isDelay value = false) (hdelay : ∀ token ∈ delay, isDelay token = true) :
    Statement.ofTokens (core ++ sideTokens side ++ delay.toList) = ⟨core, side, delay⟩ := by
  have hcut : Statement.cutDelay (core ++ sideTokens side ++ delay.toList) =
      (core ++ sideTokens side, delay) := by
    cases delay with
    | some token => exact cutDelay_concat_of_isDelay (hdelay token rfl) _
    | none =>
      rw [Option.toList_none, List.append_nil]
      cases side with
      | none =>
        rw [sideTokens, List.append_nil]
        exact h.cutDelay
      | some value =>
        have hvalue := cutDelay_concat_of_not_isDelay (hside value rfl) (core ++ ["side"])
        rwa [List.append_assoc] at hvalue
  rw [Statement.ofTokens, hcut]
  simp only [h.cutSide_append]

theorem ofTokens_withModifiers (h : EndsBare core) (side delay : Option Spelling) :
    ofTokens (withModifiers core side delay) =
      ⟨core, side.map (·.text), delay.map fun d => bracketed d.text⟩ := by
  apply h.ofTokens_append
  · intro value hvalue
    obtain ⟨v, -, rfl⟩ := Option.map_eq_some_iff.mp hvalue
    exact isDelay_eq_false_of_parse? v.spells
  · intro token htoken
    obtain ⟨d, -, rfl⟩ := Option.map_eq_some_iff.mp htoken
    exact isDelay_bracketed d.text

/-! ## The ranges -/

/-- The largest delay beside a side-set value of the given width. -/
def delayBound (width : Nat) : Int :=
  if width ≤ 5 then 2 ^ (5 - width) - 1 else -1

theorem maxDelay_eq (width : Nat) : maxDelay width = delayBound width := by
  unfold maxDelay delayBound fieldBits
  rw [Nat.one_shiftLeft]
  push_cast
  rfl

theorem maxSide_eq (width : Nat) : maxSide width = 2 ^ width := by
  unfold maxSide
  rw [Nat.one_shiftLeft]
  push_cast
  rfl

/-- A delay that may be absent is in range. -/
def DelayFits (width : Nat) (delay : Option Spelling) : Prop :=
  ∀ d ∈ delay, 0 ≤ d.value ∧ d.value ≤ delayBound width

/-- A side-set value that may be absent is in range, and so is the width. -/
def SideFits (width : Nat) (side : Option Spelling) : Prop :=
  ∀ v ∈ side, width ≤ 5 ∧ 0 ≤ v.value ∧ v.value ≤ 2 ^ width

/-- What a literal that may be absent is worth. -/
def amount (literal : Option Spelling) : Nat :=
  (literal.elim 0 (·.value)).toNat

theorem literal_read_text (l : Spelling) : Literal.read l.text = .ok l.value :=
  Instruction.literal_read_eq_ok_iff.mpr l.spells

theorem delayValue_bracketed (d : Spelling) :
    delayValue width (bracketed d.text) =
      if 0 ≤ d.value ∧ d.value ≤ delayBound width then .ok d.value.toNat
      else .error (.delayOutOfRange d.value (delayBound width)) := by
  rw [delayValue, delayNumber_bracketed d.spells, literal_read_text, maxDelay_eq]
  rfl

theorem sideValue_text (v : Spelling) :
    sideValue width v.text =
      if width ≤ 5 then
        if 0 ≤ v.value ∧ v.value ≤ 2 ^ width then .ok v.value.toNat
        else .error (.sideSetOutOfRange v.value (2 ^ width))
      else .error (.outOfRange .sideSetWidth width 0 5) := by
  rw [sideValue, literal_read_text, maxSide_eq]
  rfl

theorem elim_delayValue {delay : Option Spelling} (h : DelayFits width delay) :
    (delay.map fun d => bracketed d.text).elim (.ok 0) (delayValue width) = .ok (amount delay) := by
  cases delay with
  | none => rfl
  | some d =>
    show delayValue width (bracketed d.text) = _
    rw [delayValue_bracketed, if_pos (h d rfl)]
    rfl

theorem elim_sideValue {side : Option Spelling} (h : SideFits width side) :
    (side.map (·.text)).elim (.ok 0) (sideValue width) = .ok (amount side) := by
  cases side with
  | none => rfl
  | some v =>
    obtain ⟨hwidth, hrange⟩ := h v rfl
    show sideValue width v.text = _
    rw [sideValue_text, if_pos hwidth, if_pos hrange]
    rfl

theorem modifiers_of_delay_refused {fault : Fault}
    (h : s.delay.elim (.ok 0) (delayValue width) = .error fault) :
    s.modifiers width = .error fault := by
  rw [modifiers_eq_bind, h]
  rfl

theorem modifiers_of_side_refused {n : Nat} {fault : Fault}
    (hd : s.delay.elim (.ok 0) (delayValue width) = .ok n)
    (hs : s.side.elim (.ok 0) (sideValue width) = .error fault) :
    s.modifiers width = .error fault := by
  rw [modifiers_eq_bind, hd, hs]
  rfl

theorem modifiers_of_fits {side delay : Option Spelling} (hd : DelayFits width delay)
    (hs : SideFits width side) :
    modifiers width ⟨core, side.map (·.text), delay.map fun d => bracketed d.text⟩ =
      .ok ⟨amount delay, amount side⟩ := by
  rw [modifiers_eq_bind, elim_delayValue hd, elim_sideValue hs]
  rfl

/-! ## The bits of the word -/

/-- Delay and side-set value side by side. -/
def packedValue (width : Nat) (side delay : Option Spelling) : Nat :=
  amount delay ||| amount side * 2 ^ (5 - width)

theorem field_eq_packedValue (width : Nat) (side delay : Option Spelling) :
    Modifiers.field width ⟨amount delay, amount side⟩ = packedValue width side delay := by
  show amount delay ||| amount side <<< (5 - width) = _
  rw [Nat.shiftLeft_eq]
  rfl

theorem delayBound_lt (width : Nat) : delayBound width < 2 ^ 5 := by
  unfold delayBound
  split
  · have hle : 2 ^ (5 - width) ≤ 2 ^ 5 := Nat.pow_le_pow_right (by omega) (by omega)
    have hcast : ((2 : Int) ^ (5 - width)) ≤ 2 ^ 5 := by exact_mod_cast hle
    omega
  · omega

theorem amount_lt_of_delayFits {delay : Option Spelling} (h : DelayFits width delay) :
    amount delay < 2 ^ 5 := by
  cases delay with
  | none => decide
  | some d =>
    obtain ⟨hnonneg, hle⟩ := h d rfl
    have hlt := delayBound_lt width
    show d.value.toNat < 2 ^ 5
    omega

/-- The side-set value reaches one bit further than the field. -/
theorem amount_mul_le_of_sideFits {side : Option Spelling} (h : SideFits width side) :
    amount side * 2 ^ (5 - width) ≤ 2 ^ 5 := by
  cases side with
  | none =>
    show 0 * 2 ^ (5 - width) ≤ 2 ^ 5
    omega
  | some v =>
    obtain ⟨hwidth, hnonneg, hle⟩ := h v rfl
    have hvalue : v.value.toNat ≤ 2 ^ width := by
      have hcast : ((2 ^ width : Nat) : Int) = 2 ^ width := by push_cast; rfl
      omega
    calc
      v.value.toNat * 2 ^ (5 - width) ≤ 2 ^ width * 2 ^ (5 - width) :=
        Nat.mul_le_mul_right _ hvalue
      _ = 2 ^ 5 := Modifiers.two_pow_mul_two_pow_sub hwidth

theorem amount_le_of_sideFits {side : Option Spelling} (h : SideFits width side) :
    amount side ≤ 2 ^ 5 :=
  (Nat.le_mul_of_pos_right _ (Nat.two_pow_pos _)).trans (amount_mul_le_of_sideFits h)

theorem packedValue_lt {side delay : Option Spelling} (hd : DelayFits width delay)
    (hs : SideFits width side) : packedValue width side delay < 2 ^ 6 := by
  have hdelay := amount_lt_of_delayFits hd
  have hside := amount_mul_le_of_sideFits hs
  exact Nat.or_lt_two_pow (by omega) (by omega)

theorem ofNat_shiftLeft_eight (n : Nat) :
    BitVec.ofNat 16 n <<< 8 = BitVec.ofNat 16 (n * 2 ^ 8) := by
  apply BitVec.eq_of_toNat_eq
  rw [BitVec.toNat_shiftLeft, BitVec.toNat_ofNat, BitVec.toNat_ofNat, Nat.shiftLeft_eq]
  omega

theorem encode_of_modifiers_eq_error {fault : Fault} (h : s.modifiers width = .error fault) :
    s.encode labels width = .error fault := by
  rw [encode, h]
  rfl

theorem encode_of_modifiers_eq_ok {m : Modifiers} (h : s.modifiers width = .ok m) :
    s.encode labels width = (Instruction.read labels s.core).map fun i =>
      i.word ||| BitVec.ofNat 16 (m.field width * 2 ^ 8) := by
  rw [encode, h, ← ofNat_shiftLeft_eight]
  cases Instruction.read labels s.core <;> rfl

/-- Without modifiers the width does not matter. -/
theorem encode_of_endsBare (h : EndsBare core) :
    (ofTokens core).encode labels width = (Instruction.read labels core).map Instruction.word := by
  rw [h.ofTokens, encode_of_modifiers_eq_ok (m := ⟨0, 0⟩) rfl, Modifiers.field_zero]
  cases Instruction.read labels core with
  | error fault => rfl
  | ok i => exact congrArg Except.ok BitVec.or_zero

/-! ## The outcome of a line -/

/-- What becomes of an instruction with modifiers behind it. -/
structure Packs (labels : LabelTable) (width : Nat) (core : List String)
    (side delay : Option Spelling) : Prop where
  /-- A delay out of range is the first fault to be reported. -/
  delay_refused : ∀ d ∈ delay, ¬ (0 ≤ d.value ∧ d.value ≤ delayBound width) →
    (ofTokens (withModifiers core side delay)).encode labels width =
      .error (.delayOutOfRange d.value (delayBound width))
  /-- The next one is a side-set value under a width that leaves no field. -/
  width_refused : DelayFits width delay → ∀ v ∈ side, 5 < width →
    (ofTokens (withModifiers core side delay)).encode labels width =
      .error (.outOfRange .sideSetWidth width 0 5)
  /-- The next one is a side-set value out of range. -/
  side_refused : DelayFits width delay → ∀ v ∈ side, width ≤ 5 →
    ¬ (0 ≤ v.value ∧ v.value ≤ 2 ^ width) →
      (ofTokens (withModifiers core side delay)).encode labels width =
        .error (.sideSetOutOfRange v.value (2 ^ width))
  /-- Else the instruction decides: its fault is reported, or delay and side-set value are added to
  its word. -/
  packed : DelayFits width delay → SideFits width side →
    (ofTokens (withModifiers core side delay)).encode labels width =
      ((ofTokens core).encode labels width).map fun word =>
        word ||| BitVec.ofNat 16 (packedValue width side delay * 2 ^ 8)
  /-- No value on the way needs more than sixteen bits. -/
  small : DelayFits width delay → SideFits width side →
    amount delay < 2 ^ 16 ∧ amount side < 2 ^ 16 ∧ amount side * 2 ^ (5 - width) < 2 ^ 16 ∧
      packedValue width side delay * 2 ^ 8 < 2 ^ 16
  /-- The instruction alone comes out the same under every width. -/
  alone : ∀ width', (ofTokens core).encode labels width' = (ofTokens core).encode labels width
  /-- The instruction alone leaves the field empty. -/
  alone_field : ∀ word, (ofTokens core).encode labels width = .ok word → word.field = 0

/-- Modifiers that are literals are checked in order, and in range they stand above the operands of
the instruction. -/
theorem packs_of_endsBare (h : EndsBare core) (labels : LabelTable) (width : Nat)
    (side delay : Option Spelling) : Packs labels width core side delay where
  delay_refused := by
    rintro d rfl hrange
    rw [ofTokens_withModifiers h]
    refine encode_of_modifiers_eq_error (modifiers_of_delay_refused ?_)
    show delayValue width (bracketed d.text) = _
    rw [delayValue_bracketed, if_neg hrange]
  width_refused := by
    rintro hd v rfl hwidth
    rw [ofTokens_withModifiers h]
    refine encode_of_modifiers_eq_error (modifiers_of_side_refused (elim_delayValue hd) ?_)
    show sideValue width v.text = _
    rw [sideValue_text, if_neg (Nat.not_le.mpr hwidth)]
  side_refused := by
    rintro hd v rfl hwidth hrange
    rw [ofTokens_withModifiers h]
    refine encode_of_modifiers_eq_error (modifiers_of_side_refused (elim_delayValue hd) ?_)
    show sideValue width v.text = _
    rw [sideValue_text, if_pos hwidth, if_neg hrange]
  packed := by
    intro hd hs
    rw [ofTokens_withModifiers h, encode_of_modifiers_eq_ok (modifiers_of_fits hd hs),
      field_eq_packedValue, encode_of_endsBare h]
    cases Instruction.read labels core <;> rfl
  small := by
    intro hd hs
    have hdelay := amount_lt_of_delayFits hd
    have hside := amount_le_of_sideFits hs
    have hmul := amount_mul_le_of_sideFits hs
    have hpacked := packedValue_lt hd hs
    omega
  alone := by
    intro width'
    rw [encode_of_endsBare h, encode_of_endsBare h]
  alone_field := by
    intro word hword
    rw [encode_of_endsBare h] at hword
    cases hread : Instruction.read labels core with
    | error fault =>
      rw [hread] at hword
      cases hword
    | ok i =>
      rw [hread] at hword
      cases hword
      exact Instruction.field_word i

/-- The largest delay and the bound of the side-set value at width 1: the value reaches bit 13. -/
theorem packs_jmp_side_bound_delay :
    EndsBare ["jmp", "0"] ∧
      (ofTokens ["jmp", "0", "side", "2", "[0xF]"]).encode .empty 1 =
        ((ofTokens ["jmp", "0"]).encode .empty 1).map (· ||| 0x2F00) ∧
      (ofTokens ["jmp", "0"]).encode .empty 1 = .ok 0 := by
  have hbare : EndsBare ["jmp", "0"] := by
    refine ⟨fun token htoken => ?_, by decide⟩
    cases htoken
    decide
  let side : Spelling := ⟨"2", 2, by decide⟩
  let delay : Spelling := ⟨"0xF", 15, by decide⟩
  have hpacks := packs_of_endsBare hbare .empty 1 (some side) (some delay)
  have hd : DelayFits 1 (some delay) := by
    rintro d ⟨⟩
    decide
  have hs : SideFits 1 (some side) := by
    rintro v ⟨⟩
    decide
  have htokens : withModifiers ["jmp", "0"] (some side) (some delay) =
      ["jmp", "0", "side", "2", "[0xF]"] := by decide
  have hvalue : packedValue 1 (some side) (some delay) * 2 ^ 8 = 0x2F00 := by decide
  have hpacked := hpacks.packed hd hs
  rw [htokens, hvalue] at hpacked
  exact ⟨hbare, hpacked, rfl⟩

end Statement

end PioKit
