import PioKit.Proofs.Field
import PioKit.Proofs.Positional

/-!
# Where modifiers are looked for

Modifiers are cut off the end of a line. A token that looks like one but stands further to the front
is left to the instruction, and most instructions refuse it: it is neither a number nor the name of
an operand. `TakesAnyWord` lists the places where any word may stand, and so the only ones where such
a token goes unnoticed: behind a mnemonic that ignores its operands, as the mode of an `irq`, and as
the target of a `jmp` if there is a label of that name.
-/

namespace PioKit

/-! ## The characters of a literal -/

namespace Literal

theorem ne_bracket_of_parse? {text : String} {n : Int} (h : parse? text = some n) {c : Char}
    (hc : c ∈ text.toList) : c ≠ '[' ∧ c ≠ ']' := by
  have hplain := (parse?_eq_some_iff.mp h).forall_mem (p := fun c => c != '[' && c != ']')
    (by decide) (by decide) (by decide) c hc
  rwa [Bool.and_eq_true, bne_iff_ne, bne_iff_ne] at hplain

theorem parse?_side : parse? "side" = none := by
  decide

end Literal

namespace Statement

open Instruction (IsNumeral IsTarget Spells relMark)

theorem isDelay_eq_false_of_parse? {text : String} {n : Int} (h : Literal.parse? text = some n) :
    isDelay text = false := by
  unfold isDelay
  rw [decide_eq_false_iff_not]
  intro hlast
  exact (Literal.ne_bracket_of_parse? h (List.mem_of_getLast? hlast)).2 rfl

/-- The delay token of a number. -/
def bracketed (number : String) : String :=
  "[" ++ number ++ "]"

theorem toList_bracketed (number : String) :
    (bracketed number).toList = '[' :: (number.toList ++ [']']) := by
  simp [bracketed, String.toList_append]

theorem isDelay_bracketed (number : String) : isDelay (bracketed number) = true := by
  rw [isDelay, toList_bracketed, decide_eq_true_eq, ← List.cons_append]
  exact List.getLast?_concat

/-- The brackets of a delay token are dropped, and nothing of the number in them. -/
theorem delayNumber_bracketed {number : String} {n : Int} (h : Literal.parse? number = some n) :
    delayNumber (bracketed number) = number := by
  have hplain : ∀ c ∈ number.toList, c ≠ '[' ∧ c ≠ ']' := fun c => Literal.ne_bracket_of_parse? h
  have hfront : (bracketed number).toList.dropWhile (· == '[') = number.toList ++ [']'] := by
    rw [toList_bracketed, List.dropWhile_cons_of_pos (by rfl)]
    cases hcs : number.toList with
    | nil => rfl
    | cons c cs =>
      have hc := (hplain c (by simp [hcs])).1
      rw [List.cons_append, List.dropWhile_cons_of_neg (by simpa using hc)]
  have hback : Text.dropEndWhile (· == ']') (number.toList ++ [']']) = number.toList := by
    rw [Text.dropEndWhile, List.reverse_append, List.reverse_singleton, List.singleton_append,
      List.dropWhile_cons_of_pos (by rfl)]
    cases hcs : number.toList.reverse with
    | nil => simpa using hcs.symm
    | cons c cs =>
      have hmem : c ∈ number.toList := List.mem_reverse.mp (by simp [hcs])
      have hc := (hplain c hmem).2
      rw [List.dropWhile_cons_of_neg (by simpa using hc), ← hcs, List.reverse_reverse]
  rw [delayNumber, hfront, hback, String.ofList_toList]

end Statement

/-! ## Words that are no operands -/

namespace Instruction

/-- The token is neither a number nor the name of an operand. -/
structure IsForeign (token : String) : Prop where
  numeral : ∀ n, ¬ IsNumeral token n
  rel : token ≠ "rel"
  condition : JumpCondition.ofToken? token = none
  waitSource : WaitSource.ofToken? token = none
  shiftInSource : ShiftInSource.ofToken? token = none
  shiftOutDestination : ShiftOutDestination.ofToken? token = none
  moveDestination : MoveDestination.ofToken? token = none
  moveOperator : MoveOperator.ofToken? token = none
  moveSource : MoveSource.ofToken? token = none
  moveJoined : ∀ {operator source o}, MoveOperator.ofToken? operator = some o →
    token = operator ++ source → MoveSource.ofToken? source = none
  setDestination : SetDestination.ofToken? token = none

theorem isForeign_side : IsForeign "side" where
  numeral n h := by
    rw [IsNumeral, Literal.parse?_side] at h
    cases h
  rel := by decide
  condition := by decide
  waitSource := by decide
  shiftInSource := by decide
  shiftOutDestination := by decide
  moveDestination := by decide
  moveOperator := by decide
  moveSource := by decide
  moveJoined {operator source o} ho htoken := by
    have hsplit := splitToken_operator_append ho source
    rw [← htoken] at hsplit
    cases hsplit
  setDestination := by decide

/-- No name in a table of operands ends in a bracket, so a delay token is not looked up there. -/
theorem lookup_eq_none_of_isDelay {α : Type} {table : List (String × α)} {token : String}
    (htable : ∀ entry ∈ table, Statement.isDelay entry.1 = false)
    (h : Statement.isDelay token = true) : table.lookup token = none := by
  refine List.lookup_eq_none_iff.mpr fun entry hentry => ?_
  have hfalse := htable entry hentry
  apply bne_iff_ne.mpr
  rintro rfl
  rw [h] at hfalse
  cases hfalse

theorem isForeign_of_isDelay {token : String} (h : Statement.isDelay token = true) :
    IsForeign token where
  numeral n hn := by
    rw [Statement.isDelay_eq_false_of_parse? hn] at h
    cases h
  rel := by
    rintro rfl
    exact absurd h (by decide)
  condition := lookup_eq_none_of_isDelay (by decide) h
  waitSource := lookup_eq_none_of_isDelay (by decide) h
  shiftInSource := lookup_eq_none_of_isDelay (by decide) h
  shiftOutDestination := lookup_eq_none_of_isDelay (by decide) h
  moveDestination := lookup_eq_none_of_isDelay (by decide) h
  moveOperator := lookup_eq_none_of_isDelay (by decide) h
  moveSource := lookup_eq_none_of_isDelay (by decide) h
  moveJoined {operator source o} _ htoken := by
    -- a source is not empty, so its last character is that of the token
    by_cases hempty : source = ""
    · subst hempty
      decide
    · refine lookup_eq_none_of_isDelay (by decide) ?_
      rw [htoken] at h
      simpa [Statement.isDelay, String.toList_append, hempty] using h
  setDestination := lookup_eq_none_of_isDelay (by decide) h

/-- The mnemonics that ignore tokens they do not know. -/
def ignoringMnemonics : List String :=
  ["nop", "push", "pull"]

/-- The places in an instruction where any word may stand: what is before the word and what is after
it. -/
inductive TakesAnyWord (labels : LabelTable) (word : String) :
    List String → List String → Prop where
  /-- An operand of a mnemonic that ignores what it does not know. -/
  | ignored {mnemonic : String} (h : mnemonic ∈ ignoringMnemonics) (before after : List String) :
      TakesAnyWord labels word (mnemonic :: before) after
  /-- The mode of an `irq`. -/
  | mode {index : String} {n : Nat} (hn : IsNumeral index n) (relative : Bool) :
      TakesAnyWord labels word ["irq"] (index :: relMark relative)
  /-- The target of a `jmp`, if it is the name of a label. -/
  | target (h : (labels.address? word).isSome) : TakesAnyWord labels word ["jmp"] []
  /-- The target of a conditional `jmp`, if it is the name of a label. -/
  | targetIf {condition : String} (h : (labels.address? word).isSome) :
      TakesAnyWord labels word ["jmp", condition] []

theorem isSome_of_isTarget {labels : LabelTable} {token : String} {a : Fin 32}
    (h : IsTarget labels token a) (hforeign : IsForeign token) :
    (labels.address? token).isSome := by
  cases h with
  | label defined reached =>
    rw [defined]
    rfl
  | number undefined value => exact absurd value (hforeign.numeral _)

/-- A word that is no operand stands in an instruction only where any word may stand. -/
theorem Spells.takesAnyWord {labels : LabelTable} {tokens before after : List String}
    {word : String} {i : Instruction} (h : Spells labels tokens i)
    (htokens : tokens = before ++ word :: after) (hbefore : before ≠ [])
    (hword : IsForeign word) : TakesAnyWord labels word before after := by
  obtain ⟨mnemonic, before, rfl⟩ := List.exists_cons_of_ne_nil hbefore
  have hmem : word ∈ tokens.tail := by simp [htokens]
  have hrel : ∀ {relative}, word ∉ relMark relative := by
    intro relative
    cases relative <;> simp [hword.rel]
  cases h with
  | jmp ht =>
    obtain ⟨rfl, htarget⟩ := List.cons.inj htokens
    cases before with
    | nil =>
      cases htarget
      exact .target (isSome_of_isTarget ht hword)
    | cons token before => simp at htarget
  | jmpIf hc ht =>
    obtain ⟨rfl, htail⟩ := List.cons.inj htokens
    cases before with
    | nil =>
      cases htail
      exact absurd hc (by simp [hword.condition])
    | cons condition before =>
      obtain ⟨rfl, htarget⟩ := List.cons.inj htail
      cases before with
      | nil =>
        cases htarget
        exact .targetIf (isSome_of_isTarget ht hword)
      | cons token before => simp at htarget
  | wait hp hs hn relative =>
    simp only [List.cons_append, List.tail_cons, List.mem_cons, List.nil_append] at hmem
    rcases hmem with rfl | rfl | rfl | hmark
    · exact absurd hp (hword.numeral _)
    · exact absurd hs (by simp [hword.waitSource])
    · exact absurd hn (hword.numeral _)
    · exact absurd hmark hrel
  | shiftIn hs hc =>
    simp only [List.tail_cons, List.mem_cons, List.not_mem_nil, or_false] at hmem
    rcases hmem with rfl | rfl
    · exact absurd hs (by simp [hword.shiftInSource])
    · exact absurd hc (hword.numeral _)
  | shiftOut hd hc =>
    simp only [List.tail_cons, List.mem_cons, List.not_mem_nil, or_false] at hmem
    rcases hmem with rfl | rfl
    · exact absurd hd (by simp [hword.shiftOutDestination])
    · exact absurd hc (hword.numeral _)
  | push operands =>
    cases htokens
    exact .ignored (by decide) before after
  | pull operands =>
    cases htokens
    exact .ignored (by decide) before after
  | mov hd hs =>
    simp only [List.tail_cons, List.mem_cons, List.not_mem_nil, or_false] at hmem
    rcases hmem with rfl | rfl
    · exact absurd hd (by simp [hword.moveDestination])
    · exact absurd hs (by simp [hword.moveSource])
  | movApart hd ho hs =>
    simp only [List.tail_cons, List.mem_cons, List.not_mem_nil, or_false] at hmem
    rcases hmem with rfl | rfl | rfl
    · exact absurd hd (by simp [hword.moveDestination])
    · exact absurd ho (by simp [hword.moveOperator])
    · exact absurd hs (by simp [hword.moveSource])
  | movJoined hd ho hs =>
    simp only [List.tail_cons, List.mem_cons, List.not_mem_nil, or_false] at hmem
    rcases hmem with rfl | hjoined
    · exact absurd hd (by simp [hword.moveDestination])
    · exact absurd hs (by simp [hword.moveJoined ho hjoined])
  | irq hn relative =>
    simp only [List.cons_append, List.tail_cons, List.mem_cons, List.nil_append] at hmem
    rcases hmem with rfl | hmark
    · exact absurd hn (hword.numeral _)
    · exact absurd hmark hrel
  | @irqMode mode index n hn relative =>
    obtain ⟨rfl, htail⟩ :
        "irq" = mnemonic ∧ mode :: index :: relMark relative = before ++ word :: after :=
      List.cons.inj htokens
    cases before with
    | nil =>
      cases htail
      exact .mode hn relative
    | cons token before =>
      obtain ⟨rfl, hindex⟩ : mode = token ∧ index :: relMark relative = before ++ word :: after :=
        List.cons.inj htail
      have hmem : word ∈ before ++ word :: after := by simp
      rw [← hindex] at hmem
      rcases List.mem_cons.mp hmem with rfl | hmark
      · exact absurd hn (hword.numeral _)
      · exact absurd hmark hrel
  | set hd hn =>
    simp only [List.tail_cons, List.mem_cons, List.not_mem_nil, or_false] at hmem
    rcases hmem with rfl | rfl
    · exact absurd hd (by simp [hword.setDestination])
    · exact absurd hn (hword.numeral _)
  | nop operands =>
    cases htokens
    exact .ignored (by decide) before after

end Instruction

/-! ## Modifiers and the rest of a line -/

namespace Statement

open Instruction (IsForeign IsNumeral Spells TakesAnyWord)

theorem cutDelay_concat_of_isDelay {token : String} (h : isDelay token = true)
    (front : List String) : cutDelay (front ++ [token]) = (front, some token) := by
  simp [cutDelay, h]

theorem cutDelay_concat_of_not_isDelay {token : String} (h : isDelay token = false)
    (front : List String) : cutDelay (front ++ [token]) = (front ++ [token], none) := by
  simp [cutDelay, h]

theorem cutSide_append_side (front : List String) (value : String) :
    cutSide (front ++ ["side", value]) = (front, some value) := by
  simp [cutSide]

/-- The tokens of a side-set value that may be absent. -/
def sideTokens : Option String → List String
  | some value => ["side", value]
  | none => []

/-- The tokens of the modifiers. -/
def modifierTokens (s : Statement) : List String :=
  sideTokens s.side ++ s.delay.toList

theorem cutDelay_append (tokens : List String) :
    (cutDelay tokens).1 ++ (cutDelay tokens).2.toList = tokens := by
  unfold cutDelay
  cases hlast : tokens.getLast? with
  | none => simp
  | some last =>
    obtain ⟨front, rfl⟩ := List.getLast?_eq_some_iff.mp hlast
    by_cases hd : isDelay last <;> simp [hd]

theorem cutSide_append (tokens : List String) :
    (cutSide tokens).1 ++ sideTokens (cutSide tokens).2 = tokens := by
  unfold cutSide
  match hrev : tokens.reverse with
  | [] => simp [sideTokens]
  | [_] => simp [sideTokens]
  | value :: word :: front =>
    by_cases hs : word = "side"
    · have htokens := congrArg List.reverse hrev
      simp only [List.reverse_reverse, List.reverse_cons, List.append_assoc] at htokens
      simp [hs, htokens, sideTokens]
    · simp [hs, sideTokens]

/-- A line is its instruction and its modifiers. -/
theorem core_append_modifierTokens (tokens : List String) :
    (ofTokens tokens).core ++ (ofTokens tokens).modifierTokens = tokens := by
  have hside : (ofTokens tokens).core ++ sideTokens (ofTokens tokens).side = (cutDelay tokens).1 :=
    cutSide_append _
  rw [modifierTokens, ← List.append_assoc, hside]
  exact cutDelay_append tokens

theorem isDelay_of_ofTokens {tokens : List String} {token : String}
    (h : (ofTokens tokens).delay = some token) : isDelay token = true := by
  change (cutDelay tokens).2 = some token at h
  unfold cutDelay at h
  split at h
  · split at h
    · next hd =>
      cases h
      exact hd
    · cases h
  · cases h

/-- A delay token at the end of a line is its delay. -/
theorem delay_ofTokens_concat {front : List String} {token : String} (h : isDelay token = true) :
    (ofTokens (front ++ [token])).delay = some token := by
  show (cutDelay (front ++ [token])).2 = some token
  simp [cutDelay, h]

/-- There is at most a delay left. -/
def OnlyDelay (tokens : List String) : Prop :=
  tokens = [] ∨ ∃ token, tokens = [token] ∧ isDelay token = true

/-- A side-set value at the end of a line, or before the delay there, is the one of the line. -/
theorem side_ofTokens_append {front back : List String} {value : String}
    (hvalue : isDelay value = false) (hback : OnlyDelay back) :
    (ofTokens (front ++ "side" :: value :: back)).side = some value := by
  have hcut : (cutDelay (front ++ "side" :: value :: back)).1 = front ++ ["side", value] := by
    rcases hback with rfl | ⟨token, rfl, htoken⟩
    · simp [cutDelay, hvalue]
    · have hlast : front ++ ["side", value, token] = (front ++ ["side", value]) ++ [token] := by
        simp
      rw [hlast]
      simp [cutDelay, htoken]
  show (cutSide (cutDelay (front ++ "side" :: value :: back)).1).2 = some value
  rw [hcut]
  simp [cutSide]

/-- A token stands in the instruction or among the modifiers of its line. -/
theorem core_or_modifierTokens {front back : List String} {token : String} {tokens : List String}
    (h : tokens = front ++ token :: back) :
    (∃ rest modifiers, (ofTokens tokens).core = front ++ token :: rest ∧ back = rest ++ modifiers ∧
      (ofTokens tokens).modifierTokens = modifiers) ∨
    ∃ before, (ofTokens tokens).modifierTokens = before ++ token :: back := by
  have happend := (core_append_modifierTokens tokens).trans h
  rcases List.append_eq_append_iff.mp happend with ⟨before, -, hmod⟩ | ⟨rest, hcore, hback⟩
  · exact .inr ⟨before, hmod⟩
  · cases rest with
    | nil => exact .inr ⟨[], hback.symm⟩
    | cons head rest =>
      obtain ⟨rfl, rfl⟩ := List.cons.inj hback
      exact .inl ⟨rest, _, hcore, rfl, rfl⟩

/-- A modifier token that another one follows is the word `side` or the value after it. -/
theorem modifierTokens_eq_append {s : Statement} {before after : List String} {token next : String}
    (h : s.modifierTokens = before ++ token :: next :: after) :
    token = "side" ∧ s.side = some next ∧ after = s.delay.toList ∨ s.side = some token := by
  obtain ⟨core, side, delay⟩ := s
  have hle : delay.toList.length ≤ 1 := by cases delay <;> simp
  cases side with
  | none =>
    replace h : delay.toList = before ++ token :: next :: after := h
    have hlen := congrArg List.length h
    rw [List.length_append, List.length_cons, List.length_cons] at hlen
    omega
  | some value =>
    replace h : "side" :: value :: delay.toList = before ++ token :: next :: after := h
    cases before with
    | nil =>
      cases h
      exact .inl ⟨rfl, rfl, rfl⟩
    | cons head before =>
      obtain ⟨-, h⟩ : "side" = head ∧ value :: delay.toList = before ++ token :: next :: after :=
        List.cons.inj h
      cases before with
      | nil =>
        obtain ⟨rfl, -⟩ : value = token ∧ delay.toList = next :: after := List.cons.inj h
        exact .inr rfl
      | cons head before =>
        have hlen := congrArg List.length h
        simp only [List.length_append, List.length_cons] at hlen
        omega

variable {labels : LabelTable} {width : Nat} {tokens front back : List String} {v : Modifiers}

/-- A delay token that is not at the end of an accepted line stands in its instruction. -/
theorem core_of_isDelay {token : String} (htokens : tokens = front ++ token :: back)
    (htoken : isDelay token = true) (hback : back ≠ [])
    (hv : (ofTokens tokens).modifiers width = .ok v) :
    ∃ rest modifiers,
      (ofTokens tokens).core = front ++ token :: rest ∧ back = rest ++ modifiers := by
  rcases core_or_modifierTokens htokens with ⟨rest, modifiers, hcore, hrest, -⟩ | ⟨before, hmod⟩
  · exact ⟨rest, modifiers, hcore, hrest⟩
  · exfalso
    obtain ⟨next, back, rfl⟩ := List.exists_cons_of_ne_nil hback
    rcases modifierTokens_eq_append hmod with ⟨rfl, -⟩ | hside
    · exact absurd htoken (by decide)
    · have hvalue := (modifiers_eq_ok_iff.mp hv).2
      rw [hside] at hvalue
      rw [isDelay_eq_false_of_parse? hvalue.1] at htoken
      cases htoken

/-- A side-set value that is not at the end of an accepted line, the delay there apart, stands in
its instruction. -/
theorem core_of_side {value : String} {n : Int}
    (htokens : tokens = front ++ "side" :: value :: back)
    (hvalue : Literal.parse? value = some n)
    (hback : ¬ OnlyDelay back)
    (hv : (ofTokens tokens).modifiers width = .ok v) :
    ∃ rest modifiers, (ofTokens tokens).core = front ++ "side" :: value :: rest ∧
      back = rest ++ modifiers := by
  have hne : value ≠ "side" := by
    rintro rfl
    rw [Literal.parse?_side] at hvalue
    cases hvalue
  rcases core_or_modifierTokens htokens with ⟨rest, modifiers, hcore, hrest, hmod⟩ | ⟨before, hmod⟩
  · cases rest with
    | cons head rest =>
      obtain ⟨rfl, rfl⟩ := List.cons.inj hrest
      exact ⟨rest, modifiers, hcore, rfl⟩
    -- the value would be the first modifier token, but it is neither `side` nor a delay
    | nil =>
      exfalso
      rw [List.nil_append] at hrest
      rw [← hrest, modifierTokens] at hmod
      cases hs : (ofTokens tokens).side with
      | some value' =>
        rw [hs] at hmod
        exact hne (List.cons.inj hmod).1.symm
      | none =>
        cases hd : (ofTokens tokens).delay with
        | none => simp [hs, hd, sideTokens] at hmod
        | some token =>
          have htoken := isDelay_of_ofTokens hd
          simp only [hs, hd, sideTokens, Option.toList_some, List.nil_append] at hmod
          obtain ⟨rfl, -⟩ := List.cons.inj hmod
          rw [isDelay_eq_false_of_parse? hvalue] at htoken
          cases htoken
  · exfalso
    rcases modifierTokens_eq_append hmod with ⟨-, -, hdelay⟩ | hside
    · refine hback ?_
      cases hd : (ofTokens tokens).delay with
      | none => exact .inl (by rw [hdelay, hd]; rfl)
      | some token => exact .inr ⟨token, by rw [hdelay, hd]; rfl, isDelay_of_ofTokens hd⟩
    · have hnumeral := (modifiers_eq_ok_iff.mp hv).2
      rw [hside] at hnumeral
      exact Instruction.isForeign_side.numeral _ hnumeral.1

end Statement

/-! ## The bits of the modifiers -/

namespace Modifiers

variable {width : Nat} {m : Modifiers}

theorem field_mod_two_pow (h : m.delay < 2 ^ (5 - width)) :
    m.field width % 2 ^ 5 % 2 ^ (5 - width) = m.delay := by
  have hdvd : 2 ^ (5 - width) ∣ 2 ^ 5 := Nat.pow_dvd_pow 2 (by omega)
  rw [Nat.mod_mod_of_dvd _ hdvd, field_eq_add h, Nat.mul_comm, Nat.mul_add_mod,
    Nat.mod_eq_of_lt h]

theorem field_div_two_pow (hwidth : width ≤ 5) (hd : m.delay < 2 ^ (5 - width))
    (hs : m.side < 2 ^ width) : m.field width % 2 ^ 5 / 2 ^ (5 - width) = m.side := by
  rw [Nat.mod_eq_of_lt (field_lt hwidth hd hs), field_eq_add hd, Nat.mul_comm,
    Nat.mul_add_div (Nat.two_pow_pos _), Nat.div_eq_of_lt hd, Nat.add_zero]

end Modifiers

/-! ## Nothing that looks like a modifier is lost unnoticed -/

namespace PendingInstruction

open Instruction (TakesAnyWord ignoringMnemonics)
open Statement (OnlyDelay bracketed)

/-- What the tokens of an accepted line that look like modifiers come to in its word. -/
structure ModifiersKept (labels : LabelTable) (width : Nat) (tokens : List String) (w : Word) :
    Prop where
  /-- A delay at the end of the line is in the lower bits of the field, and one further to the front
  stands where any word may stand. -/
  delay : ∀ front number back (n : Int), tokens = front ++ bracketed number :: back → front ≠ [] →
    Literal.parse? number = some n →
      (back = [] → (w.field.toNat % 2 ^ (5 - width) : Nat) = n) ∧
      (back ≠ [] → ∃ rest modifiers, back = rest ++ modifiers ∧
        TakesAnyWord labels (bracketed number) front rest)
  /-- A side-set value at the end of the line, or before the delay there, is in the upper bits of
  the field if it fits them, and one further to the front stands where any word may stand. -/
  side : ∀ front value back (n : Int), tokens = front ++ "side" :: value :: back → front ≠ [] →
    Literal.parse? value = some n →
      (OnlyDelay back → n < 2 ^ width → (w.field.toNat / 2 ^ (5 - width) : Nat) = n) ∧
      (¬ OnlyDelay back → ∃ rest modifiers, back = rest ++ modifiers ∧
        TakesAnyWord labels "side" front (value :: rest))
  /-- A delay before a side-set value is accepted only by a mnemonic that ignores it or as the name
  of a label. -/
  order : ∀ front number value (n : Int), tokens = front ++ [bracketed number, "side", value] →
    front ≠ [] → Literal.parse? number = some n →
      (∃ mnemonic ∈ ignoringMnemonics, front.head? = some mnemonic) ∨
      front.head? = some "jmp" ∧ (labels.address? (bracketed number)).isSome

variable {labels : LabelTable} {width : Nat} {i : PendingInstruction} {w : Word}
  {front back : List String} {n : Int}

theorem field_mod_of_encode {number : String} (h : i.encode labels width = .ok w)
    (htokens : Source.tokens i.text = front ++ [bracketed number])
    (hn : Literal.parse? number = some n) : (w.field.toNat % 2 ^ (5 - width) : Nat) = n := by
  obtain ⟨-, v, -, hv, rfl⟩ := Statement.encode_eq_ok_iff.mp (encode_eq_ok_iff.mp h)
  have hvalue := (Statement.modifiers_eq_ok_iff.mp hv).1
  have hdelay := Statement.isDelay_bracketed number
  rw [statement, htokens, Statement.delay_ofTokens_concat hdelay] at hvalue
  obtain ⟨hnumeral, -, hlt⟩ := hvalue
  rw [Statement.delayNumber_bracketed hn, Instruction.IsNumeral, hn, Option.some.injEq] at hnumeral
  rw [Word.field_append, BitVec.toNat_ofNat, Modifiers.field_mod_two_pow hlt]
  exact hnumeral.symm

theorem field_div_of_encode {value : String} (hwidth : width ≤ 5)
    (h : i.encode labels width = .ok w)
    (htokens : Source.tokens i.text = front ++ "side" :: value :: back) (hback : OnlyDelay back)
    (hn : Literal.parse? value = some n) (hlt : n < 2 ^ width) :
    (w.field.toNat / 2 ^ (5 - width) : Nat) = n := by
  obtain ⟨-, v, -, hv, rfl⟩ := Statement.encode_eq_ok_iff.mp (encode_eq_ok_iff.mp h)
  obtain ⟨hd, hs⟩ := Statement.modifiers_eq_ok_iff.mp hv
  have hvalue := Statement.isDelay_eq_false_of_parse? hn
  rw [statement, htokens, Statement.side_ofTokens_append hvalue hback] at hs
  obtain ⟨hnumeral, -, -⟩ := hs
  rw [Instruction.IsNumeral, hn, Option.some.injEq] at hnumeral
  subst hnumeral
  have hside : v.side < 2 ^ width := by exact_mod_cast hlt
  rw [Word.field_append, BitVec.toNat_ofNat, Modifiers.field_div_two_pow hwidth hd.lt hside]

theorem takesAnyWord_delay {number : String} (h : i.encode labels width = .ok w)
    (htokens : Source.tokens i.text = front ++ bracketed number :: back) (hfront : front ≠ [])
    (hback : back ≠ []) :
    ∃ rest modifiers, back = rest ++ modifiers ∧
      TakesAnyWord labels (bracketed number) front rest := by
  obtain ⟨instruction, v, hspells, hv, -⟩ := Statement.encode_eq_ok_iff.mp (encode_eq_ok_iff.mp h)
  have hdelay := Statement.isDelay_bracketed number
  obtain ⟨rest, modifiers, hcore, hrest⟩ := Statement.core_of_isDelay htokens hdelay hback hv
  exact ⟨rest, modifiers, hrest,
    hspells.takesAnyWord hcore hfront (Instruction.isForeign_of_isDelay hdelay)⟩

theorem takesAnyWord_side {value : String} (h : i.encode labels width = .ok w)
    (htokens : Source.tokens i.text = front ++ "side" :: value :: back) (hfront : front ≠ [])
    (hn : Literal.parse? value = some n) (hback : ¬ OnlyDelay back) :
    ∃ rest modifiers, back = rest ++ modifiers ∧
      TakesAnyWord labels "side" front (value :: rest) := by
  obtain ⟨instruction, v, hspells, hv, -⟩ := Statement.encode_eq_ok_iff.mp (encode_eq_ok_iff.mp h)
  obtain ⟨rest, modifiers, hcore, hrest⟩ := Statement.core_of_side htokens hn hback hv
  exact ⟨rest, modifiers, hrest, hspells.takesAnyWord hcore hfront Instruction.isForeign_side⟩

/-- A delay or a side-set value in an accepted line is in its word, unless it stands where any word
may stand: behind `nop`, `push` or `pull`, as the mode of an `irq` or as a label. -/
theorem modifiersKept_of_encode (hwidth : width ≤ 5) (h : i.encode labels width = .ok w) :
    ModifiersKept labels width (Source.tokens i.text) w where
  delay front number back n htokens hfront hn := by
    refine ⟨?_, takesAnyWord_delay h htokens hfront⟩
    rintro rfl
    exact field_mod_of_encode h htokens hn
  side front value back n htokens hfront hn :=
    ⟨fun hback hlt => field_div_of_encode hwidth h htokens hback hn hlt,
      takesAnyWord_side h htokens hfront hn⟩
  order front number value n htokens hfront _ := by
    obtain ⟨rest, modifiers, hrest, hany⟩ := takesAnyWord_delay h htokens hfront (by simp)
    cases hany with
    | ignored hm before => exact .inl ⟨_, hm, rfl⟩
    -- an index would have to follow, but `side` does
    | mode hnumeral relative =>
      obtain ⟨rfl, -⟩ := List.cons.inj hrest
      exact absurd hnumeral (Instruction.isForeign_side.numeral _)
    | target hlabel => exact .inr ⟨rfl, hlabel⟩
    | targetIf hlabel => exact .inr ⟨rfl, hlabel⟩

/-- Both modifiers of a `set`, and a delay that is the mode of an `irq`. -/
theorem modifiersKept_set_irq :
    (encode .empty 2 ⟨1, "set pins, 1 side 3 [5]"⟩ = .ok 0xFD01 ∧
      ModifiersKept .empty 2 (Source.tokens "set pins, 1 side 3 [5]") 0xFD01) ∧
    (encode .empty 2 ⟨2, "irq [5] 3"⟩ = .ok 0xC003 ∧
      ModifiersKept .empty 2 (Source.tokens "irq [5] 3") 0xC003) := by
  have hset : encode .empty 2 ⟨1, "set pins, 1 side 3 [5]"⟩ = .ok 0xFD01 := rfl
  have hirq : encode .empty 2 ⟨2, "irq [5] 3"⟩ = .ok 0xC003 := rfl
  exact ⟨⟨hset, modifiersKept_of_encode (i := ⟨1, "set pins, 1 side 3 [5]"⟩) (by decide) hset⟩,
    ⟨hirq, modifiersKept_of_encode (i := ⟨2, "irq [5] 3"⟩) (by decide) hirq⟩⟩

/-- A delay before the side-set value of a `nop` is ignored, and behind it it counts. -/
theorem nop_delay_before_side_ignored :
    Source.tokens "nop [1] side 0" = ["nop", bracketed "1", "side", "0"] ∧
    Source.tokens "nop side 0 [1]" = ["nop", "side", "0", bracketed "1"] ∧
    Literal.parse? "1" = some 1 ∧
    encode .empty 1 ⟨1, "nop [1] side 0"⟩ = .ok 0xA042 ∧
    (0xA042 : Word).field.toNat % 2 ^ (5 - 1) ≠ 1 ∧
    encode .empty 1 ⟨2, "nop side 0 [1]"⟩ = .ok 0xA142 ∧ (0xA042 : Word) ≠ 0xA142 := by
  refine ⟨by rfl, by rfl, by decide, by rfl, by decide, by rfl, by decide⟩

end PendingInstruction

end PioKit
