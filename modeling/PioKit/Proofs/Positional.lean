import Mathlib.Data.Nat.Digits.Defs
import Mathlib.Tactic.Ring
import PioKit.Proofs.Grammar
import PioKit.Proofs.Numerals

/-!
# The integers that a text may spell

What a literal is, said without reading it. `Numeral.Denotes base digits n` gives a numeral its value by
the places of its digits, and `Literal.Denotes text value` puts a sign and the mark of a base before it.
A text is read exactly if it denotes a value, and then as that value. Since the magnitude is bounded and
not the number of digits, leading zeros never matter.

The marks do not make the grammar ambiguous: the second character of a mark is no decimal digit, so a text
with a mark is no decimal numeral.
-/

namespace PioKit

namespace Numeral

variable {base n value : Nat} {c : Char} {d : Nat} {cs : List Char}

/-- The digits of all bases up to sixteen, with what each of them counts. -/
def digitValues : List (Char × Nat) :=
  [('0', 0), ('1', 1), ('2', 2), ('3', 3), ('4', 4), ('5', 5), ('6', 6), ('7', 7), ('8', 8), ('9', 9),
   ('a', 10), ('b', 11), ('c', 12), ('d', 13), ('e', 14), ('f', 15),
   ('A', 10), ('B', 11), ('C', 12), ('D', 13), ('E', 14), ('F', 15)]

/-- The character is a digit of the base and counts `d`. -/
def IsDigit (base : Nat) (c : Char) (d : Nat) : Prop :=
  (c, d) ∈ digitValues ∧ d < base

/-- One or more digits of the base, the most significant one first, whose value is `n`. -/
def Denotes (base : Nat) (digits : List Char) (n : Nat) : Prop :=
  digits ≠ [] ∧
    ∃ values, List.Forall₂ (IsDigit base) digits values ∧ Nat.ofDigits base values.reverse = n

/-! ## Single digits -/

theorem eq_ofNat_of_range {first last : Char} (h : first ≤ c ∧ c ≤ last)
    (hd : c.toNat - first.toNat = d) : c = Char.ofNat (first.toNat + d) ∧ d ≤ last.toNat - first.toNat := by
  have hfirst : first.toNat ≤ c.toNat := h.1
  have hlast : c.toNat ≤ last.toNat := h.2
  have hsum : first.toNat + d = c.toNat := by omega
  refine ⟨?_, by omega⟩
  rw [hsum, Char.ofNat_toNat]

theorem digitValue?_eq_some_iff (hd : d < 16) :
    digitValue? c = some d ↔ (c, d) ∈ digitValues := by
  constructor
  · intro h
    unfold digitValue? at h
    -- each range is checked digit by digit
    split at h
    · next hrange =>
      obtain ⟨rfl, hle⟩ := eq_ofNat_of_range hrange (Option.some.inj h)
      have hall : ∀ d ≤ 9, (Char.ofNat (48 + d), d) ∈ digitValues := by decide
      exact hall d hle
    split at h
    · next hrange =>
      obtain ⟨e, he⟩ : ∃ e, c.toNat - 'a'.toNat = e := ⟨_, rfl⟩
      rw [he] at h
      obtain ⟨rfl, -⟩ := eq_ofNat_of_range hrange he
      obtain rfl := Option.some.inj h
      have hall : ∀ e < 6, (Char.ofNat (97 + e), e + 10) ∈ digitValues := by decide
      exact hall e (by omega)
    split at h
    · next hrange =>
      obtain ⟨e, he⟩ : ∃ e, c.toNat - 'A'.toNat = e := ⟨_, rfl⟩
      rw [he] at h
      obtain ⟨rfl, -⟩ := eq_ofNat_of_range hrange he
      obtain rfl := Option.some.inj h
      have hall : ∀ e < 6, (Char.ofNat (65 + e), e + 10) ∈ digitValues := by decide
      exact hall e (by omega)
    · cases h
  · intro h
    have hall : ∀ entry ∈ digitValues, digitValue? entry.1 = some entry.2 := by decide
    exact hall (c, d) h

theorem digit?_eq_some_iff (hbase : base ≤ 16) : digit? base c = some d ↔ IsDigit base c d := by
  rw [digit?, Option.filter_eq_some_iff, decide_eq_true_eq, IsDigit]
  constructor
  · rintro ⟨h, hlt⟩
    exact ⟨(digitValue?_eq_some_iff (by omega)).mp h, hlt⟩
  · rintro ⟨h, hlt⟩
    exact ⟨(digitValue?_eq_some_iff (by omega)).mpr h, hlt⟩

theorem IsDigit.digitChar (hd : d < base) (hbase : base ≤ 16) :
    IsDigit base (Nat.digitChar d) d := by
  have hall : ∀ d < 16, (Nat.digitChar d, d) ∈ digitValues := by decide
  exact ⟨hall d (by omega), hd⟩

/-! ## All digits of a numeral -/

/-- Reading digit by digit gives the value that the digits have by their places. -/
theorem extend?_eq_some_iff (hbase : base ≤ 16) :
    extend? base value cs = some n ↔
      ∃ values, List.Forall₂ (IsDigit base) cs values ∧
        values.foldl (fun v d => d + base * v) value = n := by
  induction cs generalizing value with
  | nil =>
    rw [extend?_nil, Option.some.injEq]
    constructor
    · rintro rfl
      exact ⟨[], .nil, rfl⟩
    · rintro ⟨values, hvalues, hn⟩
      cases hvalues
      exact hn
  | cons c cs ih =>
    rw [extend?_cons_eq_some_iff]
    constructor
    · rintro ⟨d, hd, h⟩
      obtain ⟨values, hvalues, hn⟩ := ih.mp h
      refine ⟨d :: values, .cons ((digit?_eq_some_iff hbase).mp hd) hvalues, ?_⟩
      rw [List.foldl_cons, Nat.add_comm d, Nat.mul_comm base]
      exact hn
    · rintro ⟨values, hvalues, hn⟩
      cases hvalues with
      | @cons _ d _ values hd hvalues =>
        refine ⟨d, (digit?_eq_some_iff hbase).mpr hd, ih.mpr ⟨values, hvalues, ?_⟩⟩
        rw [List.foldl_cons, Nat.add_comm d, Nat.mul_comm base] at hn
        exact hn

theorem ofDigits?_eq_some_iff (hbase : base ≤ 16) :
    ofDigits? base cs = some n ↔
      ∃ values, List.Forall₂ (IsDigit base) cs values ∧ Nat.ofDigits base values.reverse = n := by
  have hfold : ∀ values : List Nat,
      Nat.ofDigits base values.reverse = values.foldl (fun v d => d + base * v) 0 := by
    intro values
    rw [Nat.ofDigits_eq_foldr, List.foldr_reverse]
    rfl
  rw [ofDigits?_eq_extend?, extend?_eq_some_iff hbase]
  simp only [hfold]

theorem denotes_iff (hbase : base ≤ 16) :
    Denotes base cs n ↔ cs ≠ [] ∧ ofDigits? base cs = some n := by
  rw [Denotes, ofDigits?_eq_some_iff hbase]

theorem Denotes.exists_isDigit (h : Denotes base cs n) (hc : c ∈ cs) : ∃ d, IsDigit base c d := by
  obtain ⟨-, values, hvalues, -⟩ := h
  induction hvalues with
  | nil => cases hc
  | cons hd _ ih =>
    rcases List.mem_cons.mp hc with rfl | hc
    · exact ⟨_, hd⟩
    · exact ih hc

theorem Denotes.unique {m : Nat} (hbase : base ≤ 16) (h : Denotes base cs n)
    (h' : Denotes base cs m) : n = m := by
  rw [denotes_iff hbase] at h h'
  exact Option.some.inj (h.2.symm.trans h'.2)

/-- The digits of a number denote it. -/
theorem denotes_toDigits (hone : 1 < base) (hbase : base ≤ 16) (n : Nat) :
    Denotes base (Nat.toDigits base n) n := by
  have hdigit : ∀ d < base, digit? base (id (Nat.digitChar d)) = some d := by
    intro d hd
    exact (digit?_eq_some_iff hbase).mpr (IsDigit.digitChar hd hbase)
  have hext := extend?_toDigits hone hdigit n
  rw [List.map_id] at hext
  exact (denotes_iff hbase).mpr ⟨Nat.toDigits_ne_nil, hext⟩

end Numeral

namespace Literal

open Numeral (IsDigit)

variable {mark : String} {base n : Nat} {digits body : List Char}

/-- The marks in front of the digits, with the base that each of them announces. -/
def marks : List (String × Nat) :=
  [("0x", 16), ("0X", 16), ("0b", 2), ("0B", 2), ("", 10)]

/-- The text of a literal. -/
def written (negative : Bool) (mark : String) (digits : List Char) : String :=
  String.ofList ((if negative then ['-'] else []) ++ (mark.toList ++ digits))

/-- The number with its sign. -/
def signed (negative : Bool) (n : Nat) : Int :=
  if negative then -(n : Int) else n

/-- The text is a literal of the given value: at most one minus, the mark of a base, and digits of that
base which count no more than the largest signed 64-bit number. -/
inductive Denotes : String → Int → Prop where
  | intro (negative : Bool) {mark : String} {base : Nat} {digits : List Char} {n : Nat}
      (hmark : (mark, base) ∈ marks) (hdigits : Numeral.Denotes base digits n)
      (hn : n ≤ 2 ^ 63 - 1) : Denotes (written negative mark digits) (signed negative n)

/-- The shortest literal of an integer behind the mark of a base. -/
def numeral (mark : String) (base : Nat) (value : Int) : String :=
  written (value < 0) mark (Nat.toDigits base value.natAbs)

theorem base_bounds_of_mem_marks (h : (mark, base) ∈ marks) : 1 < base ∧ base ≤ 16 := by
  have hall : ∀ entry ∈ marks, 1 < entry.2 ∧ entry.2 ≤ 16 := by decide
  exact hall (mark, base) h

theorem maxMagnitude_eq : maxMagnitude = 2 ^ 63 - 1 := by
  decide

theorem magnitudeIn?_eq_some_iff (hbase : base ≤ 16) :
    magnitudeIn? base digits = some n ↔ Numeral.Denotes base digits n ∧ n ≤ 2 ^ 63 - 1 := by
  rw [Numeral.denotes_iff hbase, magnitudeIn?, maxMagnitude_eq]
  cases digits with
  | nil => simp
  | cons c cs =>
    simp only [List.isEmpty_cons, Bool.false_eq_true, if_false, Option.filter_eq_some_iff,
      decide_eq_true_eq, ne_eq, reduceCtorEq, not_false_eq_true, true_and]

/-- A base mark decides the base, since digits without a mark do not begin like one. -/
theorem magnitude?_mark_append (hmark : (mark, base) ∈ marks) (hdigits : Numeral.Denotes base digits n) :
    magnitude? (mark.toList ++ digits) = magnitudeIn? base digits := by
  simp only [marks, List.mem_cons, Prod.mk.injEq, List.not_mem_nil, or_false] at hmark
  rcases hmark with ⟨rfl, rfl⟩ | ⟨rfl, rfl⟩ | ⟨rfl, rfl⟩ | ⟨rfl, rfl⟩ | ⟨rfl, rfl⟩
  · rfl
  · rfl
  · rfl
  · rfl
  · show magnitude? digits = magnitudeIn? 10 digits
    have hplain : ∀ c ∈ digits, c.isDigit = true := by
      intro c hc
      obtain ⟨d, hd, hlt⟩ := hdigits.exists_isDigit hc
      have hall : ∀ entry ∈ Numeral.digitValues, entry.2 < 10 → entry.1.isDigit = true := by decide
      exact hall (c, d) hd hlt
    exact magnitude?_of_forall_isDigit hplain

/-- What holds of the marks and of all digits holds of an unsigned literal. -/
theorem forall_mem_mark_append {p : Char → Bool} (hmark : (mark, base) ∈ marks)
    (hdigits : Numeral.Denotes base digits n) (hmarks : ∀ entry ∈ marks, entry.1.toList.all p = true)
    (hdigit : ∀ entry ∈ Numeral.digitValues, p entry.1 = true) :
    ∀ c ∈ mark.toList ++ digits, p c = true := by
  rw [List.forall_mem_append]
  constructor
  · exact List.all_eq_true.mp (hmarks (mark, base) hmark)
  · intro c hc
    obtain ⟨d, hd, -⟩ := hdigits.exists_isDigit hc
    exact hdigit (c, d) hd

theorem Denotes.forall_mem {p : Char → Bool} {text : String} {value : Int} (h : Denotes text value)
    (hsign : p '-' = true) (hmarks : ∀ entry ∈ marks, entry.1.toList.all p = true)
    (hdigit : ∀ entry ∈ Numeral.digitValues, p entry.1 = true) : ∀ c ∈ text.toList, p c = true := by
  obtain ⟨negative, hmark, hdigits, -⟩ := h
  rw [written, String.toList_ofList, List.forall_mem_append]
  refine ⟨?_, forall_mem_mark_append hmark hdigits hmarks hdigit⟩
  cases negative with
  | true => exact List.forall_mem_singleton.mpr hsign
  | false => exact List.forall_mem_nil _

theorem minus_not_mem (hmark : (mark, base) ∈ marks) (hdigits : Numeral.Denotes base digits n) :
    '-' ∉ mark.toList ++ digits := by
  intro hmem
  have hne := forall_mem_mark_append (p := (· != '-')) hmark hdigits (by decide) (by decide) '-' hmem
  exact absurd hne (by decide)

theorem parse?_of_minus {text : String} (h : text.toList = '-' :: body) :
    parse? text = (magnitude? body).map (signed true) := by
  simp only [parse?, h]
  cases magnitude? body <;> rfl

theorem parse?_of_head_ne {text : String} (h : text.toList.head? ≠ some '-') :
    parse? text = (magnitude? text.toList).map (signed false) := by
  rw [parse?]
  split
  · next htext =>
    rw [htext] at h
    exact absurd rfl h
  · cases magnitude? text.toList <;> rfl

theorem parse?_written (negative : Bool) (hmark : (mark, base) ∈ marks)
    (hdigits : Numeral.Denotes base digits n) :
    parse? (written negative mark digits) = (magnitudeIn? base digits).map (signed negative) := by
  rw [← magnitude?_mark_append hmark hdigits]
  cases negative with
  | true =>
    apply parse?_of_minus
    rw [written, String.toList_ofList]
    rfl
  | false =>
    have htext : (written false mark digits).toList = mark.toList ++ digits := by
      rw [written, String.toList_ofList]
      rfl
    have hhead : (written false mark digits).toList.head? ≠ some '-' := by
      intro hhead
      rw [htext] at hhead
      exact minus_not_mem hmark hdigits (List.mem_of_head? hhead)
    rw [parse?_of_head_ne hhead, htext]

/-- What is read of an unsigned literal tells its mark from its digits. -/
theorem exists_mark_of_magnitude? (h : magnitude? body = some n) :
    ∃ mark base digits, (mark, base) ∈ marks ∧ body = mark.toList ++ digits ∧
      Numeral.Denotes base digits n ∧ n ≤ 2 ^ 63 - 1 := by
  unfold magnitude? at h
  split at h
  · exact ⟨"0x", 16, _, by decide, rfl, (magnitudeIn?_eq_some_iff (by decide)).mp h⟩
  · exact ⟨"0X", 16, _, by decide, rfl, (magnitudeIn?_eq_some_iff (by decide)).mp h⟩
  · exact ⟨"0b", 2, _, by decide, rfl, (magnitudeIn?_eq_some_iff (by decide)).mp h⟩
  · exact ⟨"0B", 2, _, by decide, rfl, (magnitudeIn?_eq_some_iff (by decide)).mp h⟩
  · exact ⟨"", 10, _, by decide, rfl, (magnitudeIn?_eq_some_iff (by decide)).mp h⟩

theorem denotes_of_magnitude? {text : String} (negative : Bool)
    (htext : text.toList = (if negative then ['-'] else []) ++ body) (h : magnitude? body = some n) :
    Denotes text (signed negative n) := by
  obtain ⟨mark, base, digits, hmark, rfl, hdigits, hn⟩ := exists_mark_of_magnitude? h
  have heq : text = written negative mark digits := by
    rw [written, ← htext, String.ofList_toList]
  rw [heq]
  exact .intro negative hmark hdigits hn

theorem parse?_eq_some_iff {text : String} {value : Int} :
    parse? text = some value ↔ Denotes text value := by
  constructor
  · intro h
    by_cases hhead : text.toList.head? = some '-'
    · obtain ⟨body, htext⟩ := List.head?_eq_some_iff.mp hhead
      rw [parse?_of_minus htext] at h
      obtain ⟨n, hn, rfl⟩ := Option.map_eq_some_iff.mp h
      exact denotes_of_magnitude? true htext hn
    · rw [parse?_of_head_ne hhead] at h
      obtain ⟨n, hn, rfl⟩ := Option.map_eq_some_iff.mp h
      exact denotes_of_magnitude? false rfl hn
  · rintro ⟨negative, hmark, hdigits, hn⟩
    have hbase := (base_bounds_of_mem_marks hmark).2
    rw [parse?_written negative hmark hdigits,
      (magnitudeIn?_eq_some_iff hbase).mpr ⟨hdigits, hn⟩]
    rfl

theorem read_of_forall_not_denotes {text : String} (h : ∀ value, ¬ Denotes text value) :
    read text = .error (.invalidNumber text) := by
  have hnone : parse? text = none := by
    rw [Option.eq_none_iff_forall_ne_some]
    intro value hvalue
    exact h value (parse?_eq_some_iff.mp hvalue)
  rw [read, hnone]

theorem signed_natAbs (value : Int) : signed (value < 0) value.natAbs = value := by
  by_cases h : value < 0
  · simp only [signed, h, decide_true, if_true]
    omega
  · simp only [signed, h, decide_false, Bool.false_eq_true, if_false]
    omega

/-- The literals of an integer are read as that integer, unless its magnitude is too large. -/
theorem read_numeral (hmark : (mark, base) ∈ marks) (value : Int) :
    read (numeral mark base value) =
      if value.natAbs ≤ 2 ^ 63 - 1 then .ok value
      else .error (.invalidNumber (numeral mark base value)) := by
  obtain ⟨hone, hbase⟩ := base_bounds_of_mem_marks hmark
  have hdigits := Numeral.denotes_toDigits hone hbase value.natAbs
  have hparse : parse? (numeral mark base value) =
      (magnitudeIn? base (Nat.toDigits base value.natAbs)).map (signed (value < 0)) :=
    parse?_written (value < 0) hmark hdigits
  by_cases hle : value.natAbs ≤ 2 ^ 63 - 1
  · rw [(magnitudeIn?_eq_some_iff hbase).mpr ⟨hdigits, hle⟩, Option.map_some, signed_natAbs] at hparse
    rw [read, hparse, if_pos hle]
  · have hnone : magnitudeIn? base (Nat.toDigits base value.natAbs) = none := by
      rw [Option.eq_none_iff_forall_ne_some]
      intro n hn
      obtain ⟨hn, hmax⟩ := (magnitudeIn?_eq_some_iff hbase).mp hn
      rw [hn.unique hbase hdigits] at hmax
      exact hle hmax
    rw [hnone, Option.map_none] at hparse
    rw [read, hparse, if_neg hle]

/-- A text is read exactly if it denotes a value, as that value, and every other text is reported as it
stands. So the literals of an integer in each base are read back, and those of one that is out of range
are refused. -/
theorem read_eq_ok_iff_denotes :
    (∀ text value, read text = .ok value ↔ Denotes text value) ∧
    (∀ text, (∀ value, ¬ Denotes text value) → read text = .error (.invalidNumber text)) ∧
    ∀ mark base, (mark, base) ∈ marks → ∀ value : Int,
      read (numeral mark base value) =
        if value.natAbs ≤ 2 ^ 63 - 1 then .ok value
        else .error (.invalidNumber (numeral mark base value)) := by
  refine ⟨?_, ?_, ?_⟩
  · intro text value
    rw [Instruction.literal_read_eq_ok_iff, parse?_eq_some_iff]
  · intro text h
    exact read_of_forall_not_denotes h
  · intro mark base hmark value
    exact read_numeral hmark value

/-- The least signed 64-bit number has no literal, and the number above it has one in each base. -/
theorem read_eq_ok_iff_denotes_least :
    Denotes "-0X7fffFFFFffffFFFF" (-(2 ^ 63 - 1)) ∧
      read (numeral "" 10 (-(2 ^ 63))) = .error (.invalidNumber (numeral "" 10 (-(2 ^ 63)))) ∧
      read "1x0" = .error (.invalidNumber "1x0") := by
  obtain ⟨hread, hrefused, hnumeral⟩ := read_eq_ok_iff_denotes
  refine ⟨(hread _ _).mp (by decide), hnumeral "" 10 (by decide) _, hrefused "1x0" ?_⟩
  intro value hvalue
  have h := (hread _ _).mpr hvalue
  cases h

end Literal

end PioKit
