import PioKit.Proofs.Packing
import PioKit.Proofs.Spacing

/-!
# The spellings of a `mov` operator

The operator of a `mov` may stand alone or be joined to the source behind it, and there are two signs for
an inversion. Whatever follows the source, all these lines have the same outcome:
`encode_eq_ok_iff_of_moves` says when one of them is accepted without saying which one it is.

The modifiers are cut off before the operands are counted, so it must not happen that a part of the `mov`
is taken for a modifier in one spelling only. It could be: the token of the source may be the word `side`
or end in a bracket. But then it names no source, and what is left of the line is refused in every spelling.
-/

namespace PioKit

/-! ## Lines of given tokens -/

namespace Source

/-- The line of the tokens with a blank between any two of them. -/
def spaced (list : List String) : String :=
  " ".intercalate list

theorem spread_spaced {list : List String} (h : ∀ token ∈ list, IsToken token) :
    Spread list (spaced list) := by
  induction list with
  | nil => exact .nil
  | cons token list ih =>
    rw [List.forall_mem_cons] at h
    cases list with
    | nil =>
      have hlast : Spread [token] (token ++ "" ++ "") :=
        .cons h.1 (List.forall_mem_nil _) (fun hne => absurd rfl hne) .nil
      rwa [String.append_empty, String.append_empty] at hlast
    | cons next list =>
      rw [spaced, String.intercalate_cons_cons]
      exact .cons h.1 (List.forall_mem_singleton.mpr (.inl rfl)) (fun _ => by decide) (ih h.2)

theorem tokens_spaced {list : List String} (h : ∀ token ∈ list, IsToken token) :
    tokens (spaced list) = list :=
  (spread_spaced h).tokens_eq

end Source

/-! ## The forms of a `mov` -/

namespace MoveOperator

/-- What is written for an operator. -/
inductive IsSign : MoveOperator → String → Prop
  | tilde : IsSign .invert "~"
  | bang : IsSign .invert "!"
  | colons : IsSign .reverse "::"

variable {o : MoveOperator} {sign : String}

theorem IsSign.ofToken? (h : IsSign o sign) : MoveOperator.ofToken? sign = some o := by
  cases h <;> rfl

theorem IsSign.isToken (h : IsSign o sign) : Source.IsToken sign := by
  cases h <;> exact Source.isToken_of_any (by decide) rfl

end MoveOperator

namespace Instruction

open MoveOperator (IsSign)

variable {labels : LabelTable} {o : MoveOperator} {d s sign : String} {front core rest m : List String}
  {i : Instruction}

/-- A `mov` with an operator, which stands alone or is joined to the source. -/
inductive Moves (o : MoveOperator) (d s : String) : List String → Prop
  | apart {sign : String} (hsign : IsSign o sign) : Moves o d s ["mov", d, sign, s]
  | joined {sign : String} (hsign : IsSign o sign) : Moves o d s ["mov", d, sign ++ s]

/-- The `mov` from the source to the destination that the tokens name. -/
def IsMove (o : MoveOperator) (d s : String) (i : Instruction) : Prop :=
  ∃ destination source, MoveDestination.ofToken? d = some destination ∧
    MoveSource.ofToken? s = some source ∧ i = .mov destination (some o) source

theorem Moves.spells (h : Moves o d s front) (hi : IsMove o d s i) : Spells labels front i := by
  obtain ⟨destination, source, hd, hs, rfl⟩ := hi
  cases h with
  | apart hsign => exact .movApart hd hsign.ofToken? hs
  | joined hsign => exact .movJoined hd hsign.ofToken? hs

theorem ne_empty_of_source {source : MoveSource} (hs : MoveSource.ofToken? s = some source) :
    s ≠ "" := by
  rintro rfl
  have hnone : MoveSource.ofToken? "" = none := rfl
  rw [hnone] at hs
  cases hs

/-- A source is found behind an operator only if the operator is that one. -/
theorem ofToken?_of_sign_append {operator : String} {o' : MoveOperator} {source : MoveSource} {s' : String}
    (hsign : IsSign o sign) (ho : MoveOperator.ofToken? operator = some o')
    (h : sign ++ s = operator ++ s') (hs : MoveSource.ofToken? s' = some source) :
    o = o' ∧ MoveSource.ofToken? s = some source := by
  have hsplit := splitToken_operator_append hsign.ofToken? s
  rw [h, splitToken_operator_append ho, Prod.mk.injEq, Option.some.injEq] at hsplit
  exact ⟨hsplit.1.symm, hsplit.2 ▸ hs⟩

theorem not_source_of_sign_append (hsign : IsSign o sign) (source : MoveSource) :
    MoveSource.ofToken? (sign ++ s) ≠ some source := by
  intro hs
  have hsplit := splitToken_operator_append hsign.ofToken? s
  rw [splitToken_source hs] at hsplit
  cases hsplit

theorem not_operator_of_sign_append (hsign : IsSign o sign) (hs : s ≠ "") (o' : MoveOperator) :
    MoveOperator.ofToken? (sign ++ s) ≠ some o' := by
  intro ho
  have hsplit := splitToken_operator_append ho ""
  rw [String.append_empty, splitToken_operator_append hsign.ofToken? s] at hsplit
  exact hs (Prod.mk.inj hsplit).2

/-- An instruction at the front of a line that begins with a `mov` is that `mov`, with all of its
operands. -/
theorem Moves.eq_of_spells (h : Moves o d s front) (hs : s ≠ "") (hcore : Spells labels core i)
    (happend : core ++ rest = front ++ m) : core = front ∧ IsMove o d s i := by
  cases hcore with
  | @mov d' s' destination source hd' hs' =>
    exfalso
    cases h with
    | @apart sign hsign =>
      obtain ⟨-, rfl, -⟩ : d' = d ∧ s' = sign ∧ rest = s :: m := by simpa using happend
      rw [← @String.append_empty s'] at hs'
      exact not_source_of_sign_append hsign source hs'
    | @joined sign hsign =>
      obtain ⟨-, rfl, -⟩ : d' = d ∧ s' = sign ++ s ∧ rest = m := by simpa using happend
      exact not_source_of_sign_append hsign source hs'
  | @movApart d' operator s' destination o' source hd' ho' hs' =>
    cases h with
    | @apart sign hsign =>
      obtain ⟨rfl, rfl, rfl, -⟩ : d' = d ∧ operator = sign ∧ s' = s ∧ rest = m := by
        simpa using happend
      obtain rfl : o = o' := Option.some.inj (hsign.ofToken?.symm.trans ho')
      exact ⟨rfl, destination, source, hd', hs', rfl⟩
    | @joined sign hsign =>
      obtain ⟨-, rfl, -⟩ : d' = d ∧ operator = sign ++ s ∧ s' :: rest = m := by simpa using happend
      exact absurd ho' (not_operator_of_sign_append hsign hs o')
  | @movJoined d' operator s' destination o' source hd' ho' hs' =>
    cases h with
    | @apart sign hsign =>
      obtain ⟨-, hsign', -⟩ : d' = d ∧ operator ++ s' = sign ∧ rest = s :: m := by
        simpa using happend
      rw [← @String.append_empty sign] at hsign'
      obtain ⟨-, hempty⟩ := ofToken?_of_sign_append hsign ho' hsign'.symm hs'
      exact absurd rfl (ne_empty_of_source hempty)
    | @joined sign hsign =>
      obtain ⟨rfl, htoken, -⟩ : d' = d ∧ operator ++ s' = sign ++ s ∧ rest = m := by
        simpa using happend
      obtain ⟨rfl, hs⟩ := ofToken?_of_sign_append hsign ho' htoken.symm hs'
      rw [htoken]
      exact ⟨rfl, destination, source, hd', hs, rfl⟩
  -- no other instruction begins like this
  | _ =>
    exfalso
    cases h <;> simp at happend

end Instruction

/-! ## What follows the `mov` -/

namespace Statement

open Instruction (IsMove Moves)

variable {labels : LabelTable} {width : Nat} {o : MoveOperator} {d s : String} {front m : List String}
  {i : Instruction} {w : Word}

/-- The tokens are modifiers with these values and nothing else. -/
def AreModifiers (width : Nat) (tokens : List String) (v : Modifiers) : Prop :=
  ∃ side delay, tokens = sideTokens side ++ delay.toList ∧ (∀ token ∈ delay, isDelay token = true) ∧
    SideIs width side v.side ∧ DelayIs width delay v.delay

/-- Neither a known source nor a known destination looks like a modifier. -/
theorem endsBare_of_moves (h : Moves o d s front) (hi : IsMove o d s i) : EndsBare front := by
  obtain ⟨destination, source, hd, hs, -⟩ := hi
  have hlast : s.toList.getLast? ≠ some ']' := by
    intro hbracket
    have hnone : MoveSource.ofToken? s = none :=
      Instruction.lookup_eq_none_of_isDelay (by decide) (decide_eq_true hbracket)
    rw [hnone] at hs
    cases hs
  have hne : s.toList ≠ [] := fun h => Instruction.ne_empty_of_source hs (String.toList_eq_nil_iff.mp h)
  have hd : d ≠ "side" := by
    rintro rfl
    rw [Instruction.isForeign_side.moveDestination] at hd
    cases hd
  cases h with
  | @apart sign hsign =>
    have hsign : sign ≠ "side" := by cases hsign <;> decide
    refine ⟨?_, fun h => hsign (Option.some.inj h)⟩
    rintro token ⟨⟩
    exact hlast
  | @joined sign hsign =>
    refine ⟨?_, fun h => hd (Option.some.inj h)⟩
    rintro token ⟨⟩
    show (sign ++ s).toList.getLast? ≠ some ']'
    rwa [String.toList_append, List.getLast?_append_of_ne_nil _ hne]

/-- When a line that begins with a `mov` is accepted, and with which word. -/
theorem encode_eq_ok_iff_of_moves (h : Moves o d s front) (hs : s ≠ "") :
    (ofTokens (front ++ m)).encode labels width = .ok w ↔
      ∃ i v, IsMove o d s i ∧ AreModifiers width m v ∧
        w = (i.mnemonic.opcode ||| BitVec.ofNat 3 (v.field width / 2 ^ 5)) ++
          BitVec.ofNat 5 (v.field width) ++ i.operands := by
  rw [encode_eq_ok_iff]
  constructor
  · rintro ⟨i, v, hspells, hv, hw⟩
    have hparts := core_append_modifierTokens (front ++ m)
    obtain ⟨hcore, hi⟩ := h.eq_of_spells hs hspells hparts
    rw [hcore] at hparts
    have hm := List.append_cancel_left hparts
    obtain ⟨hdelay, hside⟩ := modifiers_eq_ok_iff.mp hv
    exact ⟨i, v, hi, ⟨_, _, hm.symm, fun token => isDelay_of_ofTokens, hside, hdelay⟩, hw⟩
  · rintro ⟨i, v, hi, ⟨side, delay, rfl, htoken, hside, hdelay⟩, hw⟩
    have hvalue : ∀ value ∈ side, isDelay value = false := by
      rintro value rfl
      exact isDelay_eq_false_of_parse? hside.1
    have hparts := (endsBare_of_moves h hi).ofTokens_append hvalue htoken
    rw [List.append_assoc] at hparts
    rw [hparts]
    exact ⟨i, v, h.spells hi, modifiers_eq_ok_iff.mpr ⟨hdelay, hside⟩, hw⟩

end Statement

namespace PendingInstruction

open Instruction (Moves)
open MoveOperator (IsSign)
open Source (IsToken spaced)

/-- The line is a `mov` with an operator, followed by the tokens `m`. -/
def BeginsWithMove (o : MoveOperator) (d s : String) (m : List String) (text : String) : Prop :=
  ∃ front, Moves o d s front ∧ Source.tokens text = front ++ m

/-- The operator of a `mov` may stand alone or be joined to the source, and an inversion may be written
with either sign: whatever the other tokens are, these lines are accepted together and have one word. -/
theorem encode_eq_ok_iff_of_beginsWithMove {o : MoveOperator} {d s : String} {m : List String}
    (hd : IsToken d) (hs : IsToken s) (hm : ∀ token ∈ m, IsToken token) :
    (∀ sign, IsSign o sign →
      BeginsWithMove o d s m (spaced ("mov" :: d :: sign :: s :: m)) ∧
      BeginsWithMove o d s m (spaced ("mov" :: d :: (sign ++ s) :: m))) ∧
    ∀ i j : PendingInstruction, BeginsWithMove o d s m i.text → BeginsWithMove o d s m j.text →
      ∀ labels width w, i.encode labels width = .ok w ↔ j.encode labels width = .ok w := by
  constructor
  · intro sign hsign
    have hmov : IsToken "mov" := Source.isToken_of_any (by decide) rfl
    constructor
    · refine ⟨["mov", d, sign, s], .apart hsign, Source.tokens_spaced ?_⟩
      simp only [List.forall_mem_cons]
      exact ⟨hmov, hd, hsign.isToken, hs, hm⟩
    · refine ⟨["mov", d, sign ++ s], .joined hsign, Source.tokens_spaced ?_⟩
      simp only [List.forall_mem_cons]
      exact ⟨hmov, hd, hsign.isToken.append hs, hm⟩
  · rintro i j ⟨front, hfront, hi⟩ ⟨front', hfront', hj⟩ labels width w
    rw [encode_eq_ok_iff, encode_eq_ok_iff, statement, statement, hi, hj,
      Statement.encode_eq_ok_iff_of_moves hfront hs.1, Statement.encode_eq_ok_iff_of_moves hfront' hs.1]

/-- An inversion joined to its source and one that stands alone with the other sign, before modifiers. -/
theorem encode_eq_ok_iff_of_beginsWithMove_invert :
    (IsToken "y" ∧ IsToken "isr" ∧ ∀ token ∈ ["side", "1", "[3]"], IsToken token) ∧
      encode .empty 1 ⟨1, "mov y, ~isr side 1 [3]"⟩ = .ok 0xB34E ∧
      encode .empty 1 ⟨2, "mov y ! isr side 1 [3]"⟩ = .ok 0xB34E := by
  have hd : IsToken "y" := Source.isToken_of_any (by decide) rfl
  have hs : IsToken "isr" := Source.isToken_of_any (by decide) rfl
  have hm : ∀ token ∈ ["side", "1", "[3]"], IsToken token := by
    simp only [List.forall_mem_cons]
    exact ⟨Source.isToken_of_any (by decide) rfl, Source.isToken_of_any (by decide) rfl,
      Source.isToken_of_any (by decide) rfl, List.forall_mem_nil _⟩
  have hjoined : BeginsWithMove .invert "y" "isr" ["side", "1", "[3]"] "mov y, ~isr side 1 [3]" :=
    ⟨_, .joined .tilde, rfl⟩
  have hapart : BeginsWithMove .invert "y" "isr" ["side", "1", "[3]"] "mov y ! isr side 1 [3]" :=
    ⟨_, .apart .bang, rfl⟩
  have hiff := (encode_eq_ok_iff_of_beginsWithMove hd hs hm).2
    ⟨1, "mov y, ~isr side 1 [3]"⟩ ⟨2, "mov y ! isr side 1 [3]"⟩ hjoined hapart .empty 1 0xB34E
  have hword : encode .empty 1 ⟨1, "mov y, ~isr side 1 [3]"⟩ = .ok 0xB34E := rfl
  exact ⟨⟨hd, hs, hm⟩, hword, hiff.mp hword⟩

end PendingInstruction

end PioKit
