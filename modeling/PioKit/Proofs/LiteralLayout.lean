import PioKit.Proofs.Positional
import PioKit.Proofs.RawLines
import PioKit.WordFile

/-!
# The layout of a list of literals

How literals are laid out over the lines of a text does not matter to the reader. It looks at the commas
of one line at a time, but since blank pieces are dropped and carriage returns are blanks, the literals of
all lines are the pieces of the whole text between commas and line feeds: `flatMap_ofLine_lines`. Filler in
front of a piece or behind it is then lost piece by piece, and so is filler that makes pieces of its own.
-/

namespace PioKit

namespace Text

variable {p q : Char → Bool} {sep c : Char} {l : List Char}

/-- What stands between separators, without the blanks around it and unless it is blank. -/
def cells (p : Char → Bool) (text : List Char) : List (List Char) :=
  ((text.splitOnP p).map trim).filter fun part => !part.isEmpty

theorem cells_append_cons (h : p sep = true) (l r : List Char) :
    cells p (l ++ sep :: r) = cells p l ++ cells p r := by
  rw [cells, List.splitOnP_append_cons l r h, List.map_append, List.filter_append, cells, cells]

theorem cells_of_forall_false (h : ∀ c ∈ l, p c = false) :
    cells p l = [trim l].filter fun part => !part.isEmpty := by
  rw [cells, List.splitOnP_eq_singleton h, List.map_singleton]

theorem cells_of_trim_eq_self (h : ∀ c ∈ l, p c = false) (htrim : trim l = l) (hne : l ≠ []) :
    cells p l = [l] := by
  have hempty : l.isEmpty = false := List.isEmpty_eq_false_iff.mpr hne
  rw [cells_of_forall_false h, htrim, List.filter_singleton, hempty]
  rfl

theorem cells_congr (h : ∀ c ∈ l, p c = q c) : cells p l = cells q l := by
  have hsplit : l.splitOnP p = l.splitOnP q := by
    induction l with
    | nil => rfl
    | cons c l ih =>
      rw [List.forall_mem_cons] at h
      rw [List.splitOnP_cons_eq_if_modifyHead, List.splitOnP_cons_eq_if_modifyHead, h.1, ih h.2]
  rw [cells, hsplit, cells]

theorem cells_sep_cons (h : p sep = true) (l : List Char) : cells p (sep :: l) = cells p l :=
  cells_append_cons h [] l

theorem cells_append_sep (h : p sep = true) (l : List Char) : cells p (l ++ [sep]) = cells p l := by
  rw [cells_append_cons h]
  exact List.append_nil _

theorem cells_blank_cons (h : isBlank c = true) (l : List Char) : cells p (c :: l) = cells p l := by
  by_cases hsep : p c = true
  · exact cells_sep_cons hsep l
  · -- the blank is in front of the first piece
    obtain ⟨piece, pieces, hpieces⟩ : ∃ piece pieces, l.splitOnP p = piece :: pieces :=
      List.exists_cons_of_ne_nil (List.splitOnP_ne_nil p l)
    rw [cells, cells, List.splitOnP_cons_eq_if_modifyHead, if_neg hsep, hpieces,
      List.modifyHead_cons, List.map_cons, List.map_cons, trim_cons_of_blank h]

theorem cells_append_blank (h : isBlank c = true) (l : List Char) :
    cells p (l ++ [c]) = cells p l := by
  by_cases hsep : p c = true
  · exact cells_append_sep hsep l
  -- the piece before the blank starts at the last separator
  induction hlen : l.length using Nat.strongRecOn generalizing l with
  | ind n ih =>
    by_cases hmem : ∃ a ∈ l, p a = true
    · obtain ⟨a, ha, hpa⟩ := hmem
      obtain ⟨front, rest, rfl⟩ := List.append_of_mem ha
      have hrest : cells p (rest ++ [c]) = cells p rest := by
        refine ih rest.length ?_ rest rfl
        simp only [List.length_append, List.length_cons] at hlen
        omega
      rw [List.append_assoc, List.cons_append, cells_append_cons hpa, hrest, cells_append_cons hpa]
    · have hl : ∀ a ∈ l, p a = false := by
        intro a ha
        exact Bool.eq_false_of_not_eq_true fun hpa => hmem ⟨a, ha, hpa⟩
      have hlc : ∀ a ∈ l ++ [c], p a = false := by
        rw [List.forall_mem_append, List.forall_mem_singleton]
        exact ⟨hl, Bool.eq_false_of_not_eq_true hsep⟩
      have htrim : trim (l ++ [c]) = trim l :=
        trim_append_blanks (List.forall_mem_singleton.mpr h) l
      rw [cells_of_forall_false hlc, cells_of_forall_false hl, htrim]

end Text

namespace WordFile.Literals

open Text

variable {c : Char} {gap literal text : List Char} {word : Word} {words : List Word}

/-- A literal of the word: `0x` and one or more hexadecimal digits of either case. -/
def Denotes (literal : List Char) (word : Word) : Prop :=
  ∃ digits, literal = '0' :: 'x' :: digits ∧ Numeral.Denotes 16 digits word.toNat

/-- What may stand around literals. -/
def isFiller (c : Char) : Bool :=
  c == ',' || isBlank c

/-- Literals of the words, each with the filler behind it. Two literals have a comma or a line end between
them, which may be a carriage return and a line feed. -/
inductive Laid : List Word → List Char → Prop
  | nil : Laid [] []
  | cons {literal gap text : List Char} {word : Word} {words : List Word} (hliteral : Denotes literal word)
      (hgap : ∀ c ∈ gap, isFiller c = true) (hdivided : words ≠ [] → ',' ∈ gap ∨ '\n' ∈ gap)
      (htext : Laid words text) : Laid (word :: words) (literal ++ gap ++ text)

/-- Ends the piece of a text that may be a literal. -/
def isDivider (c : Char) : Bool :=
  c == ',' || c == '\n'

/-! ## Lines do not matter -/

theorem ofLine_chomp (line : List Char) : ofLine (chomp '\r' line) = ofLine line := by
  by_cases hlast : line.getLast? = some '\r'
  · obtain ⟨init, rfl⟩ := List.getLast?_eq_some_iff.mp hlast
    rw [chomp_append_mark]
    exact (cells_append_blank rfl init).symm
  · rw [chomp_of_getLast? hlast]

theorem cells_isDivider_of_not_mem {line : List Char} (h : '\n' ∉ line) :
    cells isDivider line = ofLine line := by
  apply cells_congr
  intro c hc
  have hne : c ≠ '\n' := fun heq => h (heq ▸ hc)
  rw [isDivider, beq_false_of_ne hne, Bool.or_false]

/-- The literals of all lines are the pieces of the text between commas and line feeds. -/
theorem flatMap_ofLine_lines (text : List Char) :
    (lines '\n' '\r' text).flatMap ofLine = cells isDivider text := by
  induction hlen : text.length using Nat.strongRecOn generalizing text with
  | ind n ih =>
    by_cases hmem : '\n' ∈ text
    · obtain ⟨line, rest, rfl, hline⟩ := List.eq_append_cons_of_mem hmem
      have hrest : (lines '\n' '\r' rest).flatMap ofLine = cells isDivider rest := by
        refine ih rest.length ?_ rest rfl
        simp only [List.length_append, List.length_cons] at hlen
        omega
      rw [lines_append_feed hline, List.flatMap_cons, hrest, ofLine_chomp,
        cells_append_cons rfl, cells_isDivider_of_not_mem hline]
    · rw [lines_of_not_mem hmem, cells_isDivider_of_not_mem hmem]
      cases text with
      | nil => rfl
      | cons c text => exact List.flatMap_singleton ofLine (c :: text)

theorem readLine_encode (acc : Array Word) (line : List Char) :
    readLine acc (Utf8.encode line) = (ofLine line).foldlM readLiteral acc :=
  decodeLine_bind (decodeLine_encode line) _

theorem foldlM_readLine_encode (acc : Array Word) (ls : List (List Char)) :
    (ls.map Utf8.encode).foldlM readLine acc = (ls.flatMap ofLine).foldlM readLiteral acc := by
  induction ls generalizing acc with
  | nil => rfl
  | cons line ls ih =>
    rw [List.map_cons, List.foldlM_cons, List.flatMap_cons, List.foldlM_append, readLine_encode]
    congr 1
    funext next
    exact ih next

theorem read_encode_eq (text : List Char) :
    read (Utf8.encode text) =
      ((cells isDivider text).foldlM readLiteral #[]).map Array.toList := by
  rw [read, byteLines_encode, foldlM_readLine_encode, flatMap_ofLine_lines]
  rfl

/-! ## Filler does not matter -/

theorem isFiller_iff : isFiller c = true ↔ c = ',' ∨ isBlank c = true := by
  rw [isFiller, Bool.or_eq_true, beq_iff_eq]

theorem cells_filler_cons (h : isFiller c = true) (text : List Char) :
    cells isDivider (c :: text) = cells isDivider text := by
  rcases isFiller_iff.mp h with rfl | hblank
  · exact cells_sep_cons rfl text
  · exact cells_blank_cons hblank text

theorem cells_filler_append (h : ∀ c ∈ gap, isFiller c = true) (text : List Char) :
    cells isDivider (gap ++ text) = cells isDivider text := by
  induction gap with
  | nil => rfl
  | cons c gap ih =>
    rw [List.forall_mem_cons] at h
    rw [List.cons_append, cells_filler_cons h.1, ih h.2]

theorem cells_append_filler (h : ∀ c ∈ gap, isFiller c = true) (text : List Char) :
    cells isDivider (text ++ gap) = cells isDivider text := by
  induction gap generalizing text with
  | nil => rw [List.append_nil]
  | cons c gap ih =>
    rw [List.forall_mem_cons] at h
    have hc : cells isDivider (text ++ [c]) = cells isDivider text := by
      rcases isFiller_iff.mp h.1 with rfl | hblank
      · exact cells_append_sep rfl text
      · exact cells_append_blank hblank text
    rw [← List.singleton_append, ← List.append_assoc, ih h.2, hc]

/-- Filler with a comma or a line end in it separates what is before it from what is behind it. -/
theorem cells_append_filler_append (h : ∀ c ∈ gap, isFiller c = true)
    (hdivided : ',' ∈ gap ∨ '\n' ∈ gap) (l r : List Char) :
    cells isDivider (l ++ gap ++ r) = cells isDivider l ++ cells isDivider r := by
  obtain ⟨sep, hmem, hsep⟩ : ∃ sep ∈ gap, isDivider sep = true := by
    rcases hdivided with hmem | hmem
    · exact ⟨',', hmem, rfl⟩
    · exact ⟨'\n', hmem, rfl⟩
  obtain ⟨front, back, rfl⟩ := List.append_of_mem hmem
  rw [List.forall_mem_append, List.forall_mem_cons] at h
  rw [List.append_assoc, List.append_assoc, List.cons_append, ← List.append_assoc,
    cells_append_cons hsep, cells_append_filler h.1, cells_filler_append h.2.2]

/-! ## Literals -/

theorem not_isDivider_of_denotes (h : Denotes literal word) :
    ∀ c ∈ literal, isDivider c = false ∧ isBlank c = false := by
  obtain ⟨digits, rfl, hdigits⟩ := h
  have hall : ∀ entry ∈ Numeral.digitValues, isDivider entry.1 = false ∧ isBlank entry.1 = false := by
    decide
  rw [List.forall_mem_cons, List.forall_mem_cons]
  refine ⟨by decide, by decide, ?_⟩
  intro c hc
  obtain ⟨d, hd⟩ := hdigits.exists_isDigit hc
  exact hall (c, d) hd.1

theorem cells_of_denotes (h : Denotes literal word) : cells isDivider literal = [literal] := by
  have hchars := not_isDivider_of_denotes h
  have htrim : trim literal = literal := trim_of_forall_false fun c hc => (hchars c hc).2
  refine cells_of_trim_eq_self (fun c hc => (hchars c hc).1) htrim ?_
  obtain ⟨digits, rfl, -⟩ := h
  exact List.cons_ne_nil _ _

theorem readLiteral_of_denotes (h : Denotes literal word) (acc : Array Word) :
    readLiteral acc literal = .ok (acc.push word) := by
  obtain ⟨digits, rfl, hdigits⟩ := h
  have hbound : word.toNat ≤ 0xFFFF := Nat.le_of_lt_succ word.isLt
  have hread : readHex 0xFFFF digits = .ok word.toNat := by
    obtain ⟨c, cs, rfl⟩ := List.exists_cons_of_ne_nil hdigits.1
    obtain ⟨d, hd⟩ := hdigits.exists_isDigit List.mem_cons_self
    have hplus : c ≠ '+' := by
      rintro rfl
      have hnone : ∀ entry ∈ Numeral.digitValues, entry.1 ≠ '+' := by decide
      exact hnone ('+', d) hd.1 rfl
    rw [readHex, mapError_eq_ok_iff, Numeral.readUnsigned_eq_ok_iff (by decide) hplus]
    exact ⟨((Numeral.denotes_iff (by decide)).mp hdigits).2, hbound⟩
  have hword : BitVec.ofNat 16 word.toNat = word := by
    rw [BitVec.ofNat_toNat, BitVec.setWidth_eq]
  rw [readLiteral, hread]
  exact congrArg (fun w => Except.ok (acc.push w)) hword

theorem Laid.foldlM_readLiteral (h : Laid words text) (acc : Array Word) :
    (cells isDivider text).foldlM readLiteral acc = .ok (acc ++ words.toArray) := by
  -- whatever was read before, each literal adds its word
  induction h generalizing acc with
  | nil => exact congrArg Except.ok (Array.append_empty).symm
  | @cons literal gap text word words hliteral hgap hdivided htext ih =>
    have hcells : cells isDivider (literal ++ gap ++ text) = literal :: cells isDivider text := by
      by_cases hwords : words = []
      · subst hwords
        cases htext
        rw [List.append_nil, cells_append_filler hgap, cells_of_denotes hliteral]
        rfl
      · rw [cells_append_filler_append hgap (hdivided hwords), cells_of_denotes hliteral]
        rfl
    rw [hcells, List.foldlM_cons, bind_eq_ok_iff]
    refine ⟨acc.push word, readLiteral_of_denotes hliteral acc, (ih (acc.push word)).trans ?_⟩
    simp

end WordFile.Literals

open WordFile.Literals (isFiller Laid)

/-- Literals are read as their words, however they are spelled and laid out. -/
theorem WordFile.read_array_of_laid {words : List Word} {front text : List Char}
    (hfront : ∀ c ∈ front, isFiller c = true) (htext : Laid words text) :
    read .array (Text.Utf8.encode (front ++ text)) = .ok words := by
  have hfold := htext.foldlM_readLiteral #[]
  rw [← Literals.cells_filler_append hfront, Array.empty_append] at hfold
  have hread : read .array (Text.Utf8.encode (front ++ text)) = _ :=
    Literals.read_encode_eq (front ++ text)
  rw [hread, hfold]
  rfl

/-- Leading zeros, both cases, an empty piece, both line ends and a wide blank. -/
theorem WordFile.read_array_of_laid_scattered :
    Laid [0xFF, 0xABCD, 1] "0x00fF , \r\n,0xABcd\u3000\n0x1".toList ∧
      read .array (Text.Utf8.encode
        ("\t,\r\n".toList ++ "0x00fF , \r\n,0xABcd\u3000\n0x1".toList)) =
          .ok [0xFF, 0xABCD, 1] := by
  have hlast : Laid [1] ("0x1".toList ++ [] ++ []) :=
    .cons ⟨['1'], rfl, (Numeral.denotes_iff (by decide)).mpr ⟨by decide, rfl⟩⟩
      (List.forall_mem_nil _) (fun h => absurd rfl h) .nil
  have hmiddle : Laid [0xABCD, 1] ("0xABcd".toList ++ "\u3000\n".toList ++ "0x1".toList) :=
    .cons ⟨"ABcd".toList, rfl, (Numeral.denotes_iff (by decide)).mpr ⟨by decide, rfl⟩⟩
      (List.all_eq_true.mp rfl) (fun _ => .inr (by decide)) hlast
  have hall : Laid [0xFF, 0xABCD, 1] ("0x00fF".toList ++ " , \r\n,".toList ++
      ("0xABcd".toList ++ "\u3000\n".toList ++ "0x1".toList)) :=
    .cons ⟨"00fF".toList, rfl, (Numeral.denotes_iff (by decide)).mpr ⟨by decide, rfl⟩⟩
      (List.all_eq_true.mp rfl) (fun _ => .inl (by decide)) hmiddle
  simp only [← String.toList_append] at hall
  exact ⟨hall, read_array_of_laid (List.all_eq_true.mp rfl) hall⟩

end PioKit
