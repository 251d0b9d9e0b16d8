import PioKit.Assembly
import PioKit.Proofs.Tokens

/-!
# Tokens and the separators around them

Tokens are written down with separators between them and, if one likes, around them. `Renders list text`
says that the text is such a way of writing the tokens of the list, whatever separators it uses. Reading
the tokens is the inverse: every text is a rendering of its tokens, and of no other list.

An instruction is read from its tokens only, so its word or its fault does not depend on the separators.
-/

namespace PioKit

namespace Source

/-! ## Renderings -/

/-- A text that is one token wherever separators stand around it: it has neither blanks nor commas. -/
def IsToken (text : String) : Prop :=
  text ≠ "" ∧ ∀ c ∈ text.toList, Text.isBlank c = false ∧ c ≠ ','

/-- A run of separators, blanks or commas, which may be empty. -/
def IsGap (text : String) : Prop :=
  ∀ c ∈ text.toList, Text.isBlank c = true ∨ c = ','

/-- The tokens of the list, each with the separators behind it. There is one at least between two
tokens. -/
inductive Spread : List String → String → Prop
  | nil : Spread [] ""
  | cons {token gap rest : String} {list : List String} (htoken : IsToken token) (hgap : IsGap gap)
      (hdivided : list ≠ [] → gap ≠ "") (hrest : Spread list rest) :
      Spread (token :: list) (token ++ gap ++ rest)

/-- The text consists of the tokens of the list and of separators before, between and behind them. -/
def Renders (list : List String) (text : String) : Prop :=
  ∃ front rest, IsGap front ∧ Spread list rest ∧ text = front ++ rest

/-- Two texts that differ only in the separators around their tokens. -/
def Respaced (text other : String) : Prop :=
  ∃ list, Renders list text ∧ Renders list other

variable {text token gap rest : String} {list : List String}

theorem isGap_iff : IsGap text ↔ ∀ c ∈ text.toList, isSeparator c = true := by
  simp only [IsGap, isSeparator_eq_true_iff]

theorem isToken_iff : IsToken text ↔ text ≠ "" ∧ ∀ c ∈ text.toList, isSeparator c = false := by
  simp only [IsToken, isSeparator_eq_false_iff]

theorem isToken_of_any (hne : text ≠ "") (h : text.toList.any isSeparator = false) :
    IsToken text := by
  refine isToken_iff.mpr ⟨hne, ?_⟩
  intro c hc
  exact eq_false_of_ne_true (List.any_eq_false.mp h c hc)

theorem IsToken.toList_ne_nil (h : IsToken token) : token.toList ≠ [] :=
  fun hnil => h.1 (String.toList_eq_nil_iff.mp hnil)

theorem IsToken.append (htoken : IsToken token) (hrest : IsToken rest) : IsToken (token ++ rest) := by
  constructor
  · intro h
    exact htoken.1 (String.append_eq_empty_iff.mp h).1
  · rw [String.toList_append, List.forall_mem_append]
    exact ⟨htoken.2, hrest.2⟩

theorem Spread.isToken (h : Spread list text) : ∀ token ∈ list, IsToken token := by
  induction h with
  | nil => exact List.forall_mem_nil _
  | cons htoken _ _ _ ih => exact List.forall_mem_cons.mpr ⟨htoken, ih⟩

/-- A token stands at the front. -/
theorem Spread.exists_head? (h : Spread list text) (hne : list ≠ []) :
    ∃ c, text.toList.head? = some c ∧ isSeparator c = false := by
  cases h with
  | nil => exact absurd rfl hne
  | @cons token gap rest list htoken =>
    obtain ⟨c, cs, hcs⟩ := List.exists_cons_of_ne_nil htoken.toList_ne_nil
    refine ⟨c, ?_, (isToken_iff.mp htoken).2 c (by rw [hcs]; exact List.mem_cons_self)⟩
    rw [String.toList_append, String.toList_append, hcs]
    rfl

/-! ## The tokens of a rendering -/

theorem tokens_gap_append (hgap : IsGap gap) (rest : String) : tokens (gap ++ rest) = tokens rest := by
  rw [tokens, String.toList_append, Text.fields_separators_append (isGap_iff.mp hgap), tokens]

theorem tokens_append (htoken : IsToken token)
    (hrest : ∀ c ∈ rest.toList.head?, isSeparator c = true) :
    tokens (token ++ rest) = token :: tokens rest := by
  have hchars := (isToken_iff.mp htoken).2
  rw [tokens, String.toList_append, Text.fields_part_append hchars htoken.toList_ne_nil hrest,
    List.map_cons, String.ofList_toList, tokens]

/-- A separator cuts the tokens of a text in two. -/
theorem tokens_append_separator {sep : Char} (hsep : isSeparator sep = true) (text rest : String) :
    tokens (text ++ String.singleton sep ++ rest) = tokens text ++ tokens rest := by
  have hchars : (text ++ String.singleton sep ++ rest).toList = text.toList ++ sep :: rest.toList := by
    simp
  rw [tokens, hchars, Text.fields_append_cons hsep, List.map_append, tokens, tokens]

theorem Spread.tokens_eq (h : Spread list text) : tokens text = list := by
  induction h with
  | nil => rfl
  | @cons token gap rest list htoken hgap hdivided hrest ih =>
    -- what follows the token is a separator, or the text ends there
    have hhead : ∀ c ∈ (gap ++ rest).toList.head?, isSeparator c = true := by
      intro c hc
      by_cases hempty : gap = ""
      · have hlist : list = [] := by
          by_contra hne
          exact hdivided hne hempty
        subst hempty hlist
        cases hrest
        cases hc
      · obtain ⟨first, others, hcons⟩ :=
          List.exists_cons_of_ne_nil (fun hnil => hempty (String.toList_eq_nil_iff.mp hnil))
        rw [String.toList_append, hcons] at hc
        cases hc
        exact isGap_iff.mp hgap _ (by rw [hcons]; exact List.mem_cons_self)
    rw [String.append_assoc, tokens_append htoken hhead, tokens_gap_append hgap, ih]

theorem tokens_of_renders (h : Renders list text) : tokens text = list := by
  obtain ⟨front, rest, hfront, hrest, rfl⟩ := h
  rw [tokens_gap_append hfront, hrest.tokens_eq]

/-! ## The rendering that a text is -/

theorem isGap_of_tokens_eq_nil (h : tokens text = []) : IsGap text :=
  isGap_iff.mpr (Text.fields_eq_nil_iff.mp (List.map_eq_nil_iff.mp h))

theorem exists_append_of_tokens_eq_cons (h : tokens text = token :: list) :
    ∃ front rest, IsGap front ∧ IsToken token ∧ (∀ c ∈ rest.toList.head?, isSeparator c = true) ∧
      text = front ++ (token ++ rest) ∧ tokens rest = list := by
  have hne : Text.fields isSeparator text.toList ≠ [] := by
    intro hnil
    rw [tokens, hnil] at h
    cases h
  rw [tokens, Text.fields_eq_cons hne, List.map_cons] at h
  obtain ⟨rfl, rfl⟩ := List.cons.inj h
  refine ⟨String.ofList (text.toList.takeWhile isSeparator),
    String.ofList (Text.afterField isSeparator text.toList), ?_, isToken_iff.mpr ⟨?_, ?_⟩, ?_,
    ?_, ?_⟩
  · rw [isGap_iff, String.toList_ofList]
    exact fun _ => Text.of_mem_separators
  · intro hempty
    rw [String.ofList_eq_empty_iff] at hempty
    exact Text.firstField_ne_nil hne hempty
  · rw [String.toList_ofList]
    exact fun _ => Text.of_mem_firstField
  · rw [String.toList_ofList]
    exact fun _ => Text.of_mem_head?_afterField
  · rw [← String.ofList_append, ← String.ofList_append, Text.separators_append_firstField,
      String.ofList_toList]
  · rw [tokens, String.toList_ofList]

/-- Every text is a rendering of its tokens. -/
theorem renders_tokens (text : String) : Renders (tokens text) text := by
  induction htokens : tokens text generalizing text with
  | nil => exact ⟨text, "", isGap_of_tokens_eq_nil htokens, .nil, String.append_empty.symm⟩
  | cons token list ih =>
    obtain ⟨front, rest, hfront, htoken, hhead, rfl, hlist⟩ := exists_append_of_tokens_eq_cons htokens
    obtain ⟨gap, spread, hgap, hspread, rfl⟩ := ih rest hlist
    refine ⟨front, token ++ gap ++ spread, hfront, .cons htoken hgap ?_ hspread, ?_⟩
    · -- another token follows, but a separator stands behind this one
      rintro hne rfl
      obtain ⟨c, hc, hsep⟩ := hspread.exists_head? hne
      rw [String.empty_append] at hhead
      rw [hhead c hc] at hsep
      cases hsep
    · rw [String.append_assoc]

end Source

/-! ## Instructions -/

/-- The word of an instruction, or what is wrong with it, comes from its tokens. -/
theorem PendingInstruction.mapError_fault_encode (labels : LabelTable) (width : Nat)
    (i : PendingInstruction) :
    (i.encode labels width).mapError SourceError.fault =
      (Statement.ofTokens (Source.tokens i.text)).encode labels width := by
  rw [encode]
  cases (Statement.ofTokens (Source.tokens i.text)).encode labels width <;> rfl

namespace Source

/-- The tokens of a text are tokens, and they are the one list that the text renders. A separator cuts
them in two. Instructions that differ only in their separators have the same word or the same fault. -/
theorem tokens_eq_iff_renders (text : String) :
    (∀ token ∈ tokens text, IsToken token) ∧
    (∀ list, tokens text = list ↔ Renders list text) ∧
    (∀ sep rest, Text.isBlank sep = true ∨ sep = ',' →
      tokens (text ++ String.singleton sep ++ rest) = tokens text ++ tokens rest) ∧
    ∀ (other : String) (line line' : Nat) (labels : LabelTable) (width : Nat), Respaced text other →
      (PendingInstruction.encode labels width ⟨line, text⟩).mapError SourceError.fault =
        (PendingInstruction.encode labels width ⟨line', other⟩).mapError SourceError.fault := by
  refine ⟨?_, ?_, ?_, ?_⟩
  · obtain ⟨front, rest, -, hspread, -⟩ := renders_tokens text
    exact hspread.isToken
  · intro list
    constructor
    · rintro rfl
      exact renders_tokens text
    · exact tokens_of_renders
  · intro sep rest hsep
    exact tokens_append_separator (isSeparator_eq_true_iff.mpr hsep) text rest
  · rintro other line line' labels width ⟨list, htext, hother⟩
    rw [PendingInstruction.mapError_fault_encode, PendingInstruction.mapError_fault_encode,
      tokens_of_renders htext, tokens_of_renders hother]

/-- Commas, tabs and a wide blank in other places, and a comma that cuts. -/
theorem tokens_eq_iff_renders_in :
    tokens ",in\u3000pins\t,1 " = ["in", "pins", "1"] ∧
      Respaced "in pins, 1" ",in\u3000pins\t,1 " ∧
      tokens ("in pins" ++ String.singleton ',' ++ "1") = ["in", "pins"] ++ ["1"] ∧
      (PendingInstruction.encode .empty 0 ⟨1, "in pins, 1"⟩).mapError SourceError.fault = .ok 0x4001 ∧
      (PendingInstruction.encode .empty 0 ⟨7, ",in\u3000pins\t,1 "⟩).mapError SourceError.fault =
        .ok 0x4001 := by
  have hrespaced : Respaced "in pins, 1" ",in\u3000pins\t,1 " :=
    ⟨["in", "pins", "1"], ((tokens_eq_iff_renders _).2.1 _).mp rfl,
      ((tokens_eq_iff_renders _).2.1 _).mp rfl⟩
  have hword : (PendingInstruction.encode .empty 0 ⟨1, "in pins, 1"⟩).mapError SourceError.fault =
      .ok 0x4001 := rfl
  have hsame := (tokens_eq_iff_renders _).2.2.2 _ 1 7 .empty 0 hrespaced
  exact ⟨rfl, hrespaced, (tokens_eq_iff_renders _).2.2.1 ',' "1" (.inr rfl), hword,
    hsame.symm.trans hword⟩

end Source

end PioKit
