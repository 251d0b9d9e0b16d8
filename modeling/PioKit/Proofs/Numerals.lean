import PioKit.Proofs.Refusal
import PioKit.WordFile.Basic

/-!
# Numerals and their values

A bounded numeral is refused at the first digit that takes it above its bound. As the value of a
numeral never sinks when a digit is appended, this is the same as evaluating all digits and looking
at the bound once: `readUnsigned_eq_ok_iff`. A hexadecimal numeral that is written has the value it
is written for, whatever its width: `readHex_hex`. The decimal numeral of a number is a literal of that
value: `parse?_toString`.
-/

namespace PioKit

namespace Numeral

variable {base limit value n : Nat} {c : Char} {cs : List Char}

/-! ## Digit by digit -/

/-- The value of a numeral of the given value with further digits behind it. -/
def extend? (base value : Nat) (cs : List Char) : Option Nat :=
  cs.foldlM (fun value c => (digit? base c).map (value * base + ·)) value

theorem ofDigits?_eq_extend? (base : Nat) (cs : List Char) :
    ofDigits? base cs = extend? base 0 cs := rfl

@[simp] theorem extend?_nil : extend? base value [] = some value := rfl

theorem extend?_cons_eq_some_iff :
    extend? base value (c :: cs) = some n ↔
      ∃ d, digit? base c = some d ∧ extend? base (value * base + d) cs = some n := by
  rw [extend?, List.foldlM_cons]
  cases digit? base c with
  | none => simp
  | some d => simp [extend?]

theorem extend?_append_eq_some_iff {l r : List Char} :
    extend? base value (l ++ r) = some n ↔
      ∃ v, extend? base value l = some v ∧ extend? base v r = some n := by
  rw [extend?, List.foldlM_append]
  exact Option.bind_eq_some_iff

/-- Further digits never make a numeral smaller. -/
theorem le_of_extend? (hbase : 0 < base) (h : extend? base value cs = some n) : value ≤ n := by
  induction cs generalizing value with
  | nil =>
    cases h
    exact Nat.le_refl n
  | cons c cs ih =>
    obtain ⟨d, -, h⟩ := extend?_cons_eq_some_iff.mp h
    calc
      value ≤ value * base := Nat.le_mul_of_pos_right value hbase
      _ ≤ value * base + d := Nat.le_add_right _ _
      _ ≤ n := ih h

theorem appendDigit_eq_ok_iff :
    appendDigit base limit value c = .ok n ↔
      ∃ d, digit? base c = some d ∧ value * base + d = n ∧ n ≤ limit := by
  unfold appendDigit
  cases digit? base c with
  | none => simp
  | some d =>
    by_cases h : value * base + d ≤ limit
    · simp only [h, if_true, Except.ok.injEq, Option.some.injEq]
      constructor
      · rintro rfl
        exact ⟨d, rfl, rfl, h⟩
      · rintro ⟨d', rfl, hn, -⟩
        exact hn
    · simp only [h, if_false, reduceCtorEq, false_iff]
      rintro ⟨d', hd, rfl, hle⟩
      cases hd
      exact h hle

theorem foldlM_appendDigit_eq_ok_iff (hbase : 0 < base) (hvalue : value ≤ limit) :
    cs.foldlM (appendDigit base limit) value = .ok n ↔
      extend? base value cs = some n ∧ n ≤ limit := by
  induction cs generalizing value with
  | nil =>
    simp only [List.foldlM_nil, pure, Except.pure, Except.ok.injEq, extend?_nil, Option.some.injEq]
    constructor
    · rintro rfl
      exact ⟨rfl, hvalue⟩
    · exact And.left
  | cons c cs ih =>
    rw [List.foldlM_cons, bind_eq_ok_iff, extend?_cons_eq_some_iff]
    constructor
    · rintro ⟨v, hv, h⟩
      obtain ⟨d, hd, rfl, hle⟩ := appendDigit_eq_ok_iff.mp hv
      obtain ⟨hext, hn⟩ := (ih hle).mp h
      exact ⟨⟨d, hd, hext⟩, hn⟩
    · rintro ⟨⟨d, hd, hext⟩, hn⟩
      have hle : value * base + d ≤ limit := Nat.le_trans (le_of_extend? hbase hext) hn
      exact ⟨value * base + d, appendDigit_eq_ok_iff.mpr ⟨d, hd, rfl, hle⟩,
        (ih hle).mpr ⟨hext, hn⟩⟩

theorem lt_of_digit? {d : Nat} (h : digit? base c = some d) : d < base := by
  rw [digit?, Option.filter_eq_some_iff] at h
  simpa using h.2

theorem toNat_bounds_of_digit? {d : Nat} (h : digit? base c = some d) :
    48 ≤ c.toNat ∧ c.toNat ≤ 122 := by
  have hvalue : digitValue? c = some d := (Option.filter_eq_some_iff.mp h).1
  have hbounds : ∀ {first last : Char}, first ≤ c ∧ c ≤ last → 48 ≤ first.toNat →
      last.toNat ≤ 122 → 48 ≤ c.toNat ∧ c.toNat ≤ 122 :=
    fun hrange hfirst hlast => ⟨Nat.le_trans hfirst hrange.1, Nat.le_trans hrange.2 hlast⟩
  unfold digitValue? at hvalue
  split at hvalue
  · next hrange => exact hbounds hrange (by decide) (by decide)
  split at hvalue
  · next hrange => exact hbounds hrange (by decide) (by decide)
  split at hvalue
  · next hrange => exact hbounds hrange (by decide) (by decide)
  · cases hvalue

/-- Digits are characters of one byte. -/
theorem utf8Size_of_digit? {d : Nat} (h : digit? base c = some d) : c.utf8Size = 1 := by
  have hle : c.toNat ≤ 0x7F := Nat.le_trans (toNat_bounds_of_digit? h).2 (by decide)
  have hval : c.val ≤ 0x7F := hle
  simp [Char.utf8Size, hval]

/-- A numeral without a sign is read exactly if all of it are digits and its value is in bounds. -/
theorem readUnsigned_eq_ok_iff (hbase : 0 < base) (hplus : c ≠ '+') :
    readUnsigned base limit (c :: cs) = .ok n ↔ ofDigits? base (c :: cs) = some n ∧ n ≤ limit := by
  have hread : readUnsigned base limit (c :: cs) =
      (c :: cs).foldlM (appendDigit base limit) 0 := by
    unfold readUnsigned
    split
    · contradiction
    · next h => exact absurd (List.cons.inj h).1 hplus
    · next h => exact absurd (List.cons.inj h).1 hplus
    · rfl
  rw [hread, ofDigits?_eq_extend?]
  exact foldlM_appendDigit_eq_ok_iff hbase (Nat.zero_le limit)

/-! ## Written numerals -/

/-- The upper-case digit of a value below 16. -/
def upperDigit (d : Nat) : Char :=
  (Nat.digitChar d).toUpper

/-- The digits of a number, without leading zeros. -/
def upperDigits (n : Nat) : List Char :=
  (Nat.toDigits 16 n).map Char.toUpper

theorem hex_eq_append (width n : Nat) :
    hex width n = List.replicate (width - (upperDigits n).length) '0' ++ upperDigits n := rfl

theorem upperDigits_of_lt (h : n < 16) : upperDigits n = [upperDigit n] := by
  rw [upperDigits, Nat.toDigits_of_lt_base h]
  rfl

theorem upperDigits_of_le (h : 16 ≤ n) :
    upperDigits n = upperDigits (n / 16) ++ [upperDigit (n % 16)] := by
  have hbase : 1 < 16 := by decide
  rw [upperDigits, Nat.toDigits_of_base_le hbase h, List.map_append]
  rfl

theorem digit?_upperDigit : ∀ d < 16, digit? 16 (upperDigit d) = some d := by
  decide

/-- The digits of a number in some base give the number back, however they are written. -/
theorem extend?_toDigits {write : Char → Char} (hbase : 1 < base)
    (hdigit : ∀ d < base, digit? base (write (Nat.digitChar d)) = some d) (n : Nat) :
    extend? base 0 ((Nat.toDigits base n).map write) = some n := by
  induction n using Nat.strongRecOn with
  | ind n ih =>
    by_cases h : n < base
    · rw [Nat.toDigits_of_lt_base h, List.map_singleton, extend?_cons_eq_some_iff]
      exact ⟨n, hdigit n h, by rw [extend?_nil, Nat.zero_mul, Nat.zero_add]⟩
    · have hle : base ≤ n := Nat.le_of_not_lt h
      have hlt : n / base < n := Nat.div_lt_self (by omega) hbase
      rw [Nat.toDigits_of_base_le hbase hle, List.map_append, extend?_append_eq_some_iff]
      refine ⟨n / base, ih (n / base) hlt, extend?_cons_eq_some_iff.mpr ?_⟩
      refine ⟨n % base, hdigit _ (Nat.mod_lt n (by omega)), ?_⟩
      rw [List.map_nil, extend?_nil, Nat.div_add_mod']

theorem extend?_upperDigits (n : Nat) : extend? 16 0 (upperDigits n) = some n :=
  extend?_toDigits (by decide) digit?_upperDigit n

theorem extend?_replicate_zero (k : Nat) : extend? 16 0 (List.replicate k '0') = some 0 := by
  induction k with
  | zero => rfl
  | succ k ih =>
    rw [List.replicate_succ, extend?_cons_eq_some_iff]
    exact ⟨0, by decide, ih⟩

theorem ofDigits?_hex (width n : Nat) : ofDigits? 16 (hex width n) = some n := by
  rw [ofDigits?_eq_extend?, hex_eq_append, extend?_append_eq_some_iff]
  exact ⟨0, extend?_replicate_zero _, extend?_upperDigits n⟩

/-- Whatever holds of the sixteen digits holds of all characters of a numeral. -/
theorem forall_mem_hex {p : Char → Prop} (h : ∀ d < 16, p (upperDigit d)) (width n : Nat) :
    ∀ c ∈ hex width n, p c := by
  have hdigits : ∀ c ∈ upperDigits n, p c := by
    induction n using Nat.strongRecOn with
    | ind n ih =>
      by_cases hn : n < 16
      · rw [upperDigits_of_lt hn, List.forall_mem_singleton]
        exact h n hn
      · rw [upperDigits_of_le (Nat.le_of_not_lt hn), List.forall_mem_append,
          List.forall_mem_singleton]
        exact ⟨ih (n / 16) (by omega), h (n % 16) (Nat.mod_lt n (by decide))⟩
  rw [hex_eq_append, List.forall_mem_append]
  refine ⟨fun c hc => ?_, hdigits⟩
  rw [List.eq_of_mem_replicate hc]
  exact h 0 (by decide)

theorem hex_ne_nil (width n : Nat) : hex width n ≠ [] := by
  have hdigits : upperDigits n ≠ [] := by
    by_cases hn : n < 16
    · rw [upperDigits_of_lt hn]
      exact List.cons_ne_nil _ _
    · rw [upperDigits_of_le (Nat.le_of_not_lt hn)]
      exact List.append_ne_nil_of_right_ne_nil _ (List.cons_ne_nil _ _)
  rw [hex_eq_append]
  exact List.append_ne_nil_of_right_ne_nil _ hdigits

/-- The last digit of a numeral comes behind the numeral of the others. -/
theorem hex_succ {width : Nat} (hwidth : 0 < width) (n : Nat) :
    hex (width + 1) n = hex width (n / 16) ++ [upperDigit (n % 16)] := by
  rw [hex_eq_append, hex_eq_append]
  by_cases hn : n < 16
  · -- only zeros stand in front of the digit, and the numeral of zero is one of them
    obtain ⟨k, rfl⟩ := Nat.exists_eq_add_one.mpr hwidth
    rw [upperDigits_of_lt hn, Nat.div_eq_of_lt hn, Nat.mod_eq_of_lt hn]
    show List.replicate (k + 1) '0' ++ [upperDigit n] =
      (List.replicate k '0' ++ ['0']) ++ [upperDigit n]
    rw [List.replicate_succ']
  · rw [upperDigits_of_le (Nat.le_of_not_lt hn), List.length_append, List.length_singleton,
      Nat.add_sub_add_right, List.append_assoc]

/-- A byte has two digits. -/
theorem hex_two (h : n < 256) : hex 2 n = [upperDigit (n / 16), upperDigit (n % 16)] := by
  have hdiv : n / 16 < 16 := by omega
  rw [hex_succ (by decide), hex_eq_append, upperDigits_of_lt hdiv]
  rfl

/-- The four digits of a word are those of its two bytes, the high one first. -/
theorem hex_four (n : Nat) : hex 4 n = hex 2 (n / 256) ++ hex 2 (n % 256) := by
  have hlow : n % 256 < 256 := Nat.mod_lt n (by decide)
  have hdigits : n / 16 % 16 = n % 256 / 16 ∧ n % 16 = n % 256 % 16 ∧ n / 16 / 16 = n / 256 := by
    omega
  rw [hex_succ (by decide), hex_succ (by decide), hex_two hlow, hdigits.1, hdigits.2.1, hdigits.2.2,
    List.append_assoc]
  rfl

theorem not_blank_of_mem_hex (width n : Nat) : ∀ c ∈ hex width n, Text.isBlank c = false :=
  forall_mem_hex (by decide) width n

end Numeral

namespace WordFile

/-- A written numeral is read back. -/
theorem readHex_hex {limit n : Nat} (h : n ≤ limit) (width : Nat) :
    readHex limit (Numeral.hex width n) = .ok n := by
  obtain ⟨c, cs, hcs⟩ := List.exists_cons_of_ne_nil (Numeral.hex_ne_nil width n)
  have hdigits : ∀ d ∈ Numeral.hex width n, d ≠ '+' := Numeral.forall_mem_hex (by decide) width n
  have hplus : c ≠ '+' := hdigits c (hcs ▸ List.mem_cons_self)
  rw [readHex, mapError_eq_ok_iff, hcs, Numeral.readUnsigned_eq_ok_iff (by decide) hplus, ← hcs]
  exact ⟨Numeral.ofDigits?_hex width n, h⟩

end WordFile

namespace Literal

theorem magnitude?_of_forall_isDigit {cs : List Char} (h : ∀ c ∈ cs, c.isDigit = true) :
    magnitude? cs = magnitudeIn? 10 cs := by
  unfold magnitude?
  split
  case h_5 => rfl
  -- the second character of a base mark is no digit
  all_goals exact absurd (h _ (List.mem_cons_of_mem _ List.mem_cons_self)) (by decide)

/-- The decimal numeral of a number is a literal of that value. -/
theorem parse?_toString {n : Nat} (h : n ≤ maxMagnitude) : parse? (toString n) = some (n : Int) := by
  have hdigits : ∀ c ∈ Nat.toDigits 10 n, c.isDigit = true :=
    fun c hc => Nat.isDigit_of_mem_toDigits (by decide) (by decide) hc
  have hvalue : Numeral.ofDigits? 10 (Nat.toDigits 10 n) = some n := by
    have hten : ∀ d < 10, Numeral.digit? 10 (id (Nat.digitChar d)) = some d := by decide
    have hext := Numeral.extend?_toDigits (by decide) hten n
    rwa [List.map_id] at hext
  have hmagnitude : magnitude? (Nat.toDigits 10 n) = some n := by
    have hne : (Nat.toDigits 10 n).isEmpty = false := by simp
    rw [magnitude?_of_forall_isDigit hdigits, magnitudeIn?, hne, hvalue]
    simp [h]
  unfold parse?
  rw [Nat.toString_eq_repr, Nat.toList_repr]
  split
  · next body hbody =>
    exact absurd (hdigits '-' (hbody ▸ List.mem_cons_self)) (by decide)
  · rw [hmagnitude]
    rfl

end Literal

end PioKit
