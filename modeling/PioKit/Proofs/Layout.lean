import PioKit.Proofs.RawLines
import PioKit.Proofs.Rewriting

/-!
# Layout does not matter

A text is laid out by its blank lines, its comments, the blanks around its lines and the form of its
line ends. `Edit` lists the ways to change the layout of a text by one step, each with the numbers
that the lines have afterwards, and `Edits` strings such steps together. No change of the layout has
an effect on the assembly but for these numbers: `assemble_of_edits`.
-/

namespace PioKit

namespace Source

open Text (isBlank)

/-- The raw line is blank, or it holds only a comment. -/
def HoldsNothing (raw : List Char) : Prop :=
  ∃ blanks rest, raw = blanks ++ rest ∧ (∀ c ∈ blanks, isBlank c = true) ∧
    (rest = [] ∨ ∃ comment, rest = ';' :: comment)

/-- One change of the layout of raw lines, with the new number of each line that is kept. -/
inductive Edit : List (List Char) → List (List Char) → (Nat → Nat) → Prop where
  /-- A line that holds nothing is inserted. -/
  | insert (before after : List (List Char)) {raw : List Char} (h : HoldsNothing raw) :
      Edit (before ++ after) (before ++ raw :: after)
        fun n => if n ≤ before.length then n else n + 1
  /-- A line that holds nothing is deleted. -/
  | delete (before after : List (List Char)) {raw : List Char} (h : HoldsNothing raw) :
      Edit (before ++ raw :: after) (before ++ after)
        fun n => if n ≤ before.length then n else n - 1
  /-- Blanks are added at the ends of a line. -/
  | pad (before after : List (List Char)) (raw : List Char) {front back : List Char}
      (hfront : ∀ c ∈ front, isBlank c = true) (hback : ∀ c ∈ back, isBlank c = true) :
      Edit (before ++ raw :: after) (before ++ (front ++ raw ++ back) :: after) id
  /-- Blanks are removed from the ends of a line. -/
  | unpad (before after : List (List Char)) (raw : List Char) {front back : List Char}
      (hfront : ∀ c ∈ front, isBlank c = true) (hback : ∀ c ∈ back, isBlank c = true) :
      Edit (before ++ (front ++ raw ++ back) :: after) (before ++ raw :: after) id
  /-- A comment is appended to a line. -/
  | comment (before after : List (List Char)) (raw comment : List Char) :
      Edit (before ++ raw :: after) (before ++ (raw ++ ';' :: comment) :: after) id
  /-- A line that ends with a line feed gets a carriage return before it. -/
  | toReturn (before after : List (List Char)) (raw next : List Char) :
      Edit (before ++ raw :: next :: after) (before ++ (raw ++ ['\r']) :: next :: after) id
  /-- The carriage return before the line feed of a line is removed. -/
  | ofReturn (before after : List (List Char)) (raw next : List Char) :
      Edit (before ++ (raw ++ ['\r']) :: next :: after) (before ++ raw :: next :: after) id

/-- A sequence of changes of the layout of a text, with the number that each line has in the end. -/
inductive Edits (text : String) : String → (Nat → Nat) → Prop where
  | refl : Edits text text id
  | step {text' text'' : String} {f g : Nat → Nat} (h : Edits text text' f)
      (edit : Edit (rawLines text') (rawLines text'') g) : Edits text text'' (g ∘ f)

/-! ## One change -/

theorem strip_of_holdsNothing {raw : List Char} (h : HoldsNothing raw) : strip raw = [] := by
  obtain ⟨blanks, rest, rfl, hblanks, hrest⟩ := h
  rw [strip_blanks_append hblanks]
  rcases hrest with rfl | ⟨comment, rfl⟩
  · rfl
  · exact strip_append_comment [] comment

theorem linesFrom_cons_of_holdsNothing {raw : List Char} (h : HoldsNothing raw) (start : Nat)
    (raws : List (List Char)) : linesFrom start (raw :: raws) = linesFrom (start + 1) raws := by
  rw [linesFrom_cons, ofRaw?_eq_none_iff.mpr (strip_of_holdsNothing h)]
  rfl

/-- Lines whose raw lines are numbered from elsewhere are the same lines with the numbers moved. -/
theorem map_renumber_linesFrom {f : Nat → Nat} {start start' : Nat} {raws : List (List Char)}
    (h : ∀ j < raws.length, f (start + j) = start' + j) :
    (linesFrom start raws).map (Line.renumber f) = linesFrom start' raws := by
  induction raws generalizing start start' with
  | nil => rfl
  | cons raw raws ih =>
    have hfirst : f start = start' := h 0 (Nat.zero_lt_succ _)
    have hrest : ∀ j < raws.length, f (start + 1 + j) = start' + 1 + j := by
      intro j hj
      have hnext := h (j + 1) (Nat.succ_lt_succ hj)
      rw [Nat.add_assoc, Nat.add_comm 1 j, hnext]
      omega
    rw [linesFrom_cons, linesFrom_cons, List.map_append, ih hrest]
    by_cases hraw : strip raw = []
    · rw [ofRaw?_eq_none_iff.mpr hraw, ofRaw?_eq_none_iff.mpr hraw]
      rfl
    · rw [Line.ofRaw?_eq_some_iff.mpr ⟨hraw, rfl⟩, Line.ofRaw?_eq_some_iff.mpr ⟨hraw, rfl⟩]
      simp [Line.renumber, hfirst]

/-- Another raw line of which the same is left makes no difference. -/
theorem linesFrom_of_strip_eq {raw raw' : List Char} (h : strip raw' = strip raw) (start : Nat)
    (before after : List (List Char)) :
    linesFrom start (before ++ raw' :: after) = linesFrom start (before ++ raw :: after) := by
  rw [linesFrom_append, linesFrom_cons, ofRaw?_congr h, linesFrom_append, linesFrom_cons]

/-- An edit keeps all lines, under their new numbers. -/
theorem linesFrom_of_edit {raws raws' : List (List Char)} {f : Nat → Nat}
    (h : Edit raws raws' f) :
    linesFrom 1 raws' = (linesFrom 1 raws).map (Line.renumber f) := by
  have hkeep : ∀ raws, (linesFrom 1 raws).map (Line.renumber id) = linesFrom 1 raws :=
    fun raws => map_renumber_linesFrom fun _ _ => rfl
  cases h with
  | insert before after hraw =>
    rw [linesFrom_append, linesFrom_cons_of_holdsNothing hraw, linesFrom_append, List.map_append,
      map_renumber_linesFrom, map_renumber_linesFrom]
    · intro j _
      rw [if_neg (by omega)]
      omega
    · intro j hj
      exact if_pos (by omega)
  | delete before after hraw =>
    rw [linesFrom_append, linesFrom_append, linesFrom_cons_of_holdsNothing hraw, List.map_append,
      map_renumber_linesFrom, map_renumber_linesFrom]
    · intro j _
      rw [if_neg (by omega)]
      omega
    · intro j hj
      exact if_pos (by omega)
  | pad before after raw hfront hback =>
    have hstrip := (strip_append_blanks hback _).trans (strip_blanks_append hfront raw)
    rw [hkeep, linesFrom_of_strip_eq hstrip]
  | unpad before after raw hfront hback =>
    have hstrip := (strip_append_blanks hback _).trans (strip_blanks_append hfront raw)
    rw [hkeep, linesFrom_of_strip_eq hstrip]
  | comment before after raw comment =>
    rw [hkeep, linesFrom_of_strip_eq (strip_append_comment raw comment)]
  | toReturn before after raw next =>
    rw [hkeep, linesFrom_of_strip_eq (strip_append_return raw)]
  | ofReturn before after raw next =>
    rw [hkeep, linesFrom_of_strip_eq (strip_append_return raw)]

/-! ## The assembly -/

theorem lines_of_edits {text text' : String} {f : Nat → Nat} (h : Edits text text' f) :
    lines text' = (lines text).map (Line.renumber f) := by
  induction h with
  | refl => exact (List.map_id _).symm
  | step _ edit ih =>
    rw [lines_eq_linesFrom, linesFrom_of_edit edit, ← lines_eq_linesFrom, ih, List.map_map]
    rfl

/-- An instruction on a line of another number has the same word, or the same fault there. -/
theorem encode_renumber (f : Nat → Nat) (table : LabelTable) (width : Nat)
    (i : PendingInstruction) :
    ((Rewriting.renumber f).pending i).encode table width =
      (i.encode table width).mapError (Rewriting.renumber f).error := by
  show Except.mapError _ ((Statement.ofTokens (tokens i.text)).encode table width) =
    Except.mapError _ (Except.mapError _ ((Statement.ofTokens (tokens i.text)).encode table width))
  cases (Statement.ofTokens (tokens i.text)).encode table width <;> rfl

end Source

open Source in
/-- A text of another layout has the same lines under other numbers, and it comes to the same
assembly, or to the same fault with the same text at the new number of its line. -/
theorem assemble_of_edits {text text' : String} {number : Nat → Nat}
    (h : Edits text text' number) :
    lines text' = (lines text).map (Line.renumber number) ∧
      assemble text' = (assemble text).mapError fun e => { e with line := number e.line } := by
  have hlines := lines_of_edits h
  have hmap : lines text' = (lines text).map (Rewriting.renumber number).line := by
    rw [hlines, Rewriting.line_renumber]
  refine ⟨hlines, ?_⟩
  cases hp : Program.ofLines (lines text) with
  | error e =>
    have hp' : Program.ofLines (lines text') = .error ((Rewriting.renumber number).error e) := by
      rw [hmap, Rewriting.ofLines_map, hp]
      rfl
    rw [assemble_of_ofLines_error hp, assemble_of_ofLines_error hp']
    rfl
  | ok p =>
    have hencode : (p.instructions.toList.mapM fun i =>
        ((Rewriting.renumber number).pending i).encode p.labels p.sideSet) =
          p.encode.mapError (Rewriting.renumber number).error := by
      rw [Program.encode_eq_mapM, mapM_mapError]
      congr 1
      exact funext (encode_renumber number p.labels p.sideSet)
    rw [Rewriting.assemble_of_lines_map _ hmap hp, hencode, assemble_of_ofLines_ok hp]
    cases p.encode <;> rfl

open Source in
/-- A comment line above, a carriage return and a comment move an unknown instruction by one line. -/
theorem assemble_of_edits_unknown :
    let number := id ∘ id ∘ (fun n => if n ≤ 0 then n else n + 1) ∘ id
    Edits "nop\nbad" "\t; top\nnop\r\nbad;!" number ∧
      assemble "\t; top\nnop\r\nbad;!" = .error ⟨.unknownInstruction "bad", number 2, "bad"⟩ := by
  intro number
  have hnothing : HoldsNothing ['\t', ';', ' ', 't', 'o', 'p'] :=
    ⟨['\t'], _, rfl, List.forall_mem_singleton.mpr rfl, .inr ⟨_, rfl⟩⟩
  have h₁ : Edits "nop\nbad" "\t; top\nnop\nbad" _ :=
    .step .refl (.insert [] [['n', 'o', 'p'], ['b', 'a', 'd']] hnothing)
  have h₂ : Edits "nop\nbad" "\t; top\nnop\r\nbad" _ :=
    .step h₁ (.toReturn [['\t', ';', ' ', 't', 'o', 'p']] [] ['n', 'o', 'p'] ['b', 'a', 'd'])
  have h₃ : Edits "nop\nbad" "\t; top\nnop\r\nbad;!" number :=
    .step h₂ (.comment [['\t', ';', ' ', 't', 'o', 'p'], ['n', 'o', 'p', '\r']] [] ['b', 'a', 'd'] ['!'])
  exact ⟨h₃, (assemble_of_edits h₃).2⟩

end PioKit
