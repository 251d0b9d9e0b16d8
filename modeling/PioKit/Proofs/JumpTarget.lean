import PioKit.Proofs.Modifiers
import PioKit.Proofs.Numerals
import PioKit.Proofs.Replacement
import PioKit.Proofs.Tokens

/-!
# Labels and addresses

A label stands for the number of instructions before it. In the place of a jump target this number may
be written as well, unless a label has its spelling: `assemble_replaceTarget`.

The target is the last token of the instruction, so the modifiers behind it are found where they were
(`ofTokens_set`), and the line stays an instruction (`holdsInstruction_replaceToken`).
-/

namespace PioKit

/-! ## Modifiers behind another token -/

namespace Statement

/-- Whether the last token is a side-set value is decided by the token before it. -/
theorem cutSide_concat_congr {front : List String} {token : String}
    (h : (cutSide (front ++ [token])).2 = none) (new : String) :
    cutSide (front ++ [new]) = (front ++ [new], none) := by
  rcases List.eq_nil_or_concat front with rfl | ⟨init, word, rfl⟩
  · rfl
  · have hword : word ≠ "side" := by
      rintro rfl
      simp [cutSide] at h
    simp [cutSide, hword]

/-- The last token of an instruction may be exchanged for any token that is no delay. -/
theorem ofTokens_set {tokens front : List String} {old new : String}
    (hcore : (ofTokens tokens).core = front ++ [old]) (hnew : isDelay new = false) :
    ofTokens (tokens.set front.length new) = { ofTokens tokens with core := front ++ [new] } := by
  have htokens := core_append_modifierTokens tokens
  have hset : tokens.set front.length new =
      front ++ [new] ++ sideTokens (ofTokens tokens).side ++ (ofTokens tokens).delay.toList := by
    conv_lhs => rw [← htokens, hcore, modifierTokens]
    simp
  -- the delay is cut where it was
  have hdelay : cutDelay (tokens.set front.length new) =
      (front ++ [new] ++ sideTokens (ofTokens tokens).side, (ofTokens tokens).delay) := by
    rw [hset]
    cases hd : (ofTokens tokens).delay with
    | some token =>
      exact cutDelay_concat_of_isDelay (isDelay_of_ofTokens hd) _
    | none =>
      cases hs : (ofTokens tokens).side with
      | none =>
        simpa [sideTokens] using cutDelay_concat_of_not_isDelay hnew front
      | some value =>
        have hold : tokens = front ++ [old] ++ ["side"] ++ [value] := by
          rw [← htokens, hcore, modifierTokens, hs, hd]
          simp [sideTokens]
        have hvalue : isDelay value = false := by
          by_contra htrue
          have hcut := cutDelay_concat_of_isDelay (Bool.eq_true_of_not_eq_false htrue)
            (front ++ [old] ++ ["side"])
          rw [← hold] at hcut
          have hnone : (cutDelay tokens).2 = none := hd
          rw [hcut] at hnone
          cases hnone
        simpa [sideTokens] using
          cutDelay_concat_of_not_isDelay hvalue (front ++ [new] ++ ["side"])
  have hside : cutSide (front ++ [new] ++ sideTokens (ofTokens tokens).side) =
      (front ++ [new], (ofTokens tokens).side) := by
    cases hs : (ofTokens tokens).side with
    | some value => exact cutSide_append_side (front ++ [new]) value
    | none =>
      have hcut : (cutSide (cutDelay tokens).1).2 = none := hs
      have hrest : (cutDelay tokens).1 = front ++ [old] := by
        rw [← hcore]
        exact (cutSide_of_snd_eq_none hcut).symm
      rw [hrest] at hcut
      simpa [sideTokens] using cutSide_concat_congr hcut new
  rw [ofTokens, hdelay]
  simp only [hside]

end Statement

/-! ## The address of a label -/

namespace Instruction

theorem signedIndex_of_le {index : Nat} (h : index ≤ Literal.maxMagnitude) :
    signedIndex index = index := by
  unfold Literal.maxMagnitude at h
  exact Int.bmod_eq_of_le (by omega) (by omega)

theorem address_of_address?_eq_some {labels : LabelTable} {target : String} {index : Nat}
    (h : labels.address? target = some index) :
    address labels target = below .jumpTarget 32 (signedIndex index) := by
  unfold address
  rw [h]
  exact pure_bind _ _

theorem address_of_parse?_eq_some {labels : LabelTable} {target : String} {value : Int}
    (h : labels.address? target = none) (hvalue : Literal.parse? target = some value) :
    address labels target = below .jumpTarget 32 value := by
  unfold address
  rw [h, hvalue]
  exact pure_bind _ _

/-- A label and the numeral of its index stand for the same address. -/
theorem address_toString {labels : LabelTable} {name : String} {label : Label}
    (hlabel : labels.find? name = some label)
    (hfree : labels.find? (toString label.index) = none)
    (hle : label.index ≤ Literal.maxMagnitude) :
    address labels (toString label.index) = address labels name := by
  have hname : labels.address? name = some label.index := by
    rw [LabelTable.address?, hlabel]
    rfl
  have hnumeral : labels.address? (toString label.index) = none := by
    rw [LabelTable.address?, hfree]
    rfl
  rw [address_of_parse?_eq_some hnumeral (Literal.parse?_toString hle),
    address_of_address?_eq_some hname, signedIndex_of_le hle]

/-- Of the target of a jump only its address matters. -/
theorem read_jmp_congr {labels : LabelTable} {target target' : String}
    (h : address labels target' = address labels target) (condition : Option String) :
    read labels ("jmp" :: condition.toList ++ [target']) =
      read labels ("jmp" :: condition.toList ++ [target]) := by
  show readJmp labels (condition.toList ++ [target']) = readJmp labels (condition.toList ++ [target])
  cases condition with
  | none =>
    show (address labels target' >>= _) = (address labels target >>= _)
    rw [h]
  | some condition =>
    show (named JumpCondition.ofToken? .unknownCondition condition >>= fun condition =>
        address labels target' >>= _) =
      (named JumpCondition.ofToken? .unknownCondition condition >>= fun condition =>
        address labels target >>= _)
    rw [h]

end Instruction

namespace Source

open Text (isBlank trim)

/-- The index of a label is bounded by the length of the text, since every instruction before it has
a line of its own. -/
theorem index_le_of_defines {text : String} {label : Label} (h : Defines (lines text) label) :
    label.index ≤ text.length := by
  obtain ⟨before, line, after, hlines, -, hindex, -⟩ := h
  have hbefore : (pending before).length ≤ before.length := List.length_filterMap_le _ _
  have hraws : (lines text).length ≤ (rawLines text).length := by
    rw [lines_eq_linesFrom]
    exact length_linesFrom_le _ _
  have htext := length_rawLines_le text
  rw [hlines, List.length_append, List.length_cons] at hraws
  omega

/-! ## Lines with another token -/

theorem Content.ofText_eq_instruction_iff {cs : List Char} :
    Content.ofText cs = .instruction (String.ofList cs) ↔
      cs.head? ≠ some '.' ∧ cs.getLast? ≠ some ':' := by
  unfold Content.ofText labelName?
  by_cases hdot : cs.head? = some '.'
  · simp only [hdot, if_true, ne_eq, not_true, false_and, iff_false]
    split <;> nofun
  · by_cases hcolon : cs.getLast? = some ':' <;> simp [hdot, hcolon]

theorem exists_find?_not_blank {cs : List Char} {c : Char} (hc : c ∈ cs)
    (hblank : isBlank c = false) : ∃ d ∈ cs, cs.find? (!isBlank ·) = some d := by
  have hsome : (cs.find? (!isBlank ·)).isSome := by
    rw [List.find?_isSome]
    exact ⟨c, hc, by rw [hblank]; rfl⟩
  obtain ⟨d, hd⟩ := Option.isSome_iff_exists.mp hsome
  exact ⟨d, List.mem_of_find?_eq_some hd, hd⟩

/-- An instruction stays one if another token is put behind its first one. -/
theorem holdsInstruction_replaceToken {raw new : List Char} {position : Nat}
    (hraw : HoldsInstruction raw) (hpos : 0 < position)
    (hlt : position < (Text.fields isSeparator (withoutComment raw)).length)
    (hnew : ∀ c ∈ new, isBlank c = false ∧ c ≠ ';' ∧ c ≠ ':') (hne : new ≠ []) :
    HoldsInstruction (replaceToken position new raw) := by
  obtain ⟨left, part, right, hcode, hleft, hreplace⟩ := Text.exists_replaceField_eq hlt
  obtain ⟨a, ha, hsep⟩ := hleft hpos
  have hcomment : ';' ∉ new := fun hmem => (hnew ';' hmem).2.1 rfl
  have hstrip : strip (replaceToken position new raw) = trim (left ++ new ++ right) := by
    rw [strip_eq_trim_withoutComment, withoutComment_replaceToken hcomment hlt, hreplace]
  have hold : strip raw = trim (left ++ part ++ right) := by
    rw [strip_eq_trim_withoutComment, hcode]
  obtain ⟨hdot, hcolon⟩ := Content.ofText_eq_instruction_iff.mp hraw.2
  -- the first character stands in front of the token
  have hblank : isBlank a = false := by
    by_contra htrue
    rw [isSeparator_of_isBlank (Bool.eq_true_of_not_eq_false htrue)] at hsep
    cases hsep
  obtain ⟨c, -, hc⟩ := exists_find?_not_blank ha hblank
  have hhead : ∀ mid, (trim (left ++ mid ++ right)).head? = some c := by
    intro mid
    rw [Text.head?_trim, List.append_assoc, List.find?_append, hc]
    rfl
  have hlast : (trim (left ++ new ++ right)).getLast? ≠ some ':' := by
    rw [hold, Text.getLast?_trim] at hcolon
    rw [Text.getLast?_trim]
    simp only [List.reverse_append, List.find?_append] at hcolon ⊢
    cases hright : right.reverse.find? (!isBlank ·) with
    | some d => rwa [hright] at hcolon
    | none =>
      -- behind the token there are only blanks, so the line ends with the token
      obtain ⟨d, hd⟩ := List.exists_mem_of_ne_nil new hne
      obtain ⟨e, hmem, he⟩ := exists_find?_not_blank (List.mem_reverse.mpr hd) (hnew d hd).1
      rw [he]
      intro heq
      exact (hnew e (List.mem_reverse.mp hmem)).2.2 (Option.some.inj heq)
  refine ⟨?_, Content.ofText_eq_instruction_iff.mpr ⟨?_, ?_⟩⟩
  · intro hnil
    have hsome := hhead new
    rw [← hstrip, hnil] at hsome
    cases hsome
  · rw [hstrip, hhead new, ← hhead part, ← hold]
    exact hdot
  · rw [hstrip]
    exact hlast

theorem isBlank_of_isDigit {c : Char} (h : c.isDigit = true) : isBlank c = false := by
  have hrange : 48 ≤ c.toNat ∧ c.toNat ≤ 57 := Char.isDigit_iff_toNat.mp h
  exact Text.isBlank_of_toNat (by omega) (by omega)

theorem ne_of_isDigit {c d : Char} (h : c.isDigit = true) (hd : d.isDigit = false) : c ≠ d := by
  rintro rfl
  rw [h] at hd
  cases hd

theorem isSeparator_of_isDigit {c : Char} (h : c.isDigit = true) : isSeparator c = false :=
  isSeparator_eq_false_iff.mpr ⟨isBlank_of_isDigit h, ne_of_isDigit h (by decide)⟩

theorem isDigit_of_mem_toString {n : Nat} {c : Char} (h : c ∈ (toString n).toList) :
    c.isDigit = true := by
  rw [Nat.toString_eq_repr, Nat.toList_repr] at h
  exact Nat.isDigit_of_mem_toDigits (by decide) (by decide) h

theorem holdsInstruction_of_pending? {raw : List Char} {number : Nat} {line : Line}
    {i : PendingInstruction} (hraw : Line.ofRaw? raw number = some line)
    (hi : line.pending? = some i) : HoldsInstruction raw := by
  obtain ⟨hstrip, hline⟩ := Line.ofRaw?_eq_some_iff.mp hraw
  refine ⟨hstrip, ?_⟩
  rw [hline] at hi
  unfold Line.pending? at hi
  split at hi
  · next t ht => exact ht.trans (by rw [Content.eq_of_ofText_eq_instruction ht])
  · cases hi

/-- The text with another token in the given place of one of its lines. -/
def replaceTokenAt (text : String) (number position : Nat) (new : String) : String :=
  replaceLine text number
    (replaceToken position new.toList ((rawLines text).getD (number - 1) []))

/-- A numeral behind the first token of an instruction changes that token and nothing else. -/
theorem exists_lines_replaceTokenAt {text : String} {line : Line} {i : PendingInstruction}
    (hline : line ∈ lines text) (hi : line.pending? = some i) {position : Nat} (hpos : 0 < position)
    (hlt : position < (tokens i.text).length) (n : Nat) :
    ∃ new, tokens new = (tokens i.text).set position (toString n) ∧
      lines (replaceTokenAt text line.number position (toString n)) =
        (lines text).map (Rewriting.replace line.number new).line := by
  have hmem := hline
  rw [lines_eq_linesFrom] at hmem
  obtain ⟨before, raw, after, hraws, hnumber, hraw⟩ := exists_raw_of_mem_linesFrom hmem
  have hplace : (rawLines text).getD (line.number - 1) [] = raw := by
    have hindex : line.number - 1 = before.length := by omega
    rw [hraws, hindex]
    simp
  have htext : i.text = String.ofList (strip raw) := by
    rw [eq_of_pending?_eq_some hline hi, (Line.ofRaw?_eq_some_iff.mp hraw).2]
  have hdigits : ∀ c ∈ (toString n).toList, c.isDigit = true := fun c => isDigit_of_mem_toString
  have hne : (toString n).toList ≠ [] := by
    rw [Nat.toString_eq_repr, Nat.toList_repr]
    exact Nat.toDigits_ne_nil
  rw [htext] at hlt
  have hfields : position < (Text.fields isSeparator (withoutComment raw)).length := by
    rwa [tokens_strip, List.length_map] at hlt
  have hnew := holdsInstruction_replaceToken (holdsInstruction_of_pending? hraw hi) hpos hfields (fun c hc =>
    ⟨isBlank_of_isDigit (hdigits c hc), ne_of_isDigit (hdigits c hc) (by decide),
      ne_of_isDigit (hdigits c hc) (by decide)⟩) hne
  have hfeed : '\n' ∉ replaceToken position (toString n).toList raw := by
    refine feed_not_mem_replaceToken (fun hmem => ?_) ?_ hfields
    · exact ne_of_isDigit (hdigits _ hmem) (by decide) rfl
    · exact feed_not_mem_of_mem_rawLines (hraws ▸ List.mem_append_right _ List.mem_cons_self)
  refine ⟨String.ofList (strip (replaceToken position (toString n).toList raw)), ?_, ?_⟩
  · rw [htext, tokens_replaceToken (fun c hc => ⟨isSeparator_of_isDigit (hdigits c hc),
      ne_of_isDigit (hdigits c hc) (by decide)⟩) hne hlt, String.ofList_toList]
  · rw [replaceTokenAt, hplace]
    exact lines_replaceLine hline hi hfeed hnew

end Source

open Source

/-- What an error reports, the text of its line apart. -/
def SourceError.report (e : SourceError) : Fault × Nat :=
  (e.fault, e.line)

theorem PendingInstruction.mapError_report_encode (labels : LabelTable) (width : Nat)
    (i : PendingInstruction) :
    (i.encode labels width).mapError SourceError.report =
      (i.statement.encode labels width).mapError fun fault => (fault, i.line) := by
  show Except.mapError _ (Except.mapError _ (i.statement.encode labels width)) = _
  cases i.statement.encode labels width <;> rfl

/-- Another text of an instruction that comes to the same word or fault changes nothing else. -/
theorem mapError_report_assemble_congr {text text' : String} {p : Program}
    (hp : Program.ofLines (lines text) = .ok p) {line : Line} (hline : line ∈ lines text)
    {i : PendingInstruction} (hi : line.pending? = some i) {new : String}
    (hlines : lines text' = (lines text).map (Rewriting.replace line.number new).line)
    (hencode : (PendingInstruction.statement ⟨line.number, new⟩).encode p.labels p.sideSet =
      i.statement.encode p.labels p.sideSet) :
    (assemble text').mapError SourceError.report =
      (assemble text).mapError SourceError.report := by
  have hinstructions : p.instructions.toList = pending (lines text) :=
    Program.instructions_of_ofLines hp
  have hwords : ∀ j ∈ p.instructions.toList,
      (((Rewriting.replace line.number new).pending j).encode p.labels p.sideSet).mapError
          SourceError.report =
        (j.encode p.labels p.sideSet).mapError SourceError.report := by
    intro j hj
    rw [hinstructions] at hj
    obtain ⟨line', hline', hj, hnumber⟩ := exists_line_of_mem_pending hj
    rw [Rewriting.pending_replace]
    by_cases hsame : j.line = line.number
    · have hji : j = i := by
        rw [eq_of_number_eq hline' hline (hnumber.trans hsame), hi] at hj
        exact (Option.some.inj hj).symm
      subst hji
      rw [if_pos hsame, PendingInstruction.mapError_report_encode,
        PendingInstruction.mapError_report_encode, hsame, hencode]
    · rw [if_neg hsame]
  rw [Rewriting.assemble_of_lines_map _ hlines hp, assemble_of_ofLines_ok hp, p.encode_eq_mapM,
    mapError_map, mapError_map, mapM_mapError, mapM_mapError, mapM_congr_of_mem hwords]

/-- A jump to a label is the jump to its index: with the numeral in the place of the label a text has
the same name, width and words, or it is refused on the same line for the same fault. Indices are
signed 64-bit numbers, and so are the lengths of texts. -/
theorem assemble_replaceTarget {text : String} (hsize : text.length ≤ Literal.maxMagnitude)
    {p : Program} (hp : Program.ofLines (lines text) = .ok p) {line : Line} (hline : line ∈ lines text)
    {i : PendingInstruction} (hi : line.pending? = some i) {name : String}
    (hjmp : i.statement.core = ["jmp", name] ∨
      ∃ condition, i.statement.core = ["jmp", condition, name])
    {label : Label} (hlabel : p.labels.find? name = some label)
    (hfree : p.labels.find? (toString label.index) = none) :
    Defines (lines text) label ∧
      (assemble (replaceTokenAt text line.number (i.statement.core.length - 1)
          (toString label.index))).mapError SourceError.report =
        (assemble text).mapError SourceError.report := by
  have hdefines : Defines (lines text) label :=
    ((Program.wellFormed_and_describes_of_ofLines hp).2.label name label).mp hlabel |>.2
  refine ⟨hdefines, ?_⟩
  have hle : label.index ≤ Literal.maxMagnitude := (index_le_of_defines hdefines).trans hsize
  obtain ⟨condition, hcore⟩ : ∃ condition : Option String,
      i.statement.core = "jmp" :: condition.toList ++ [name] := by
    rcases hjmp with hcore | ⟨condition, hcore⟩
    · exact ⟨none, hcore⟩
    · exact ⟨some condition, hcore⟩
  have hposition : i.statement.core.length - 1 = ("jmp" :: condition.toList).length := by
    rw [hcore, List.length_append, List.length_singleton, Nat.add_sub_cancel]
  have hlt : ("jmp" :: condition.toList).length < (tokens i.text).length := by
    have hprefix := (Statement.core_isPrefix (tokens i.text)).length_le
    change i.statement.core.length ≤ _ at hprefix
    rw [hcore, List.length_append, List.length_singleton] at hprefix
    exact hprefix
  have hpos : 0 < ("jmp" :: condition.toList).length := Nat.succ_pos _
  obtain ⟨new, htokens, hlines⟩ := exists_lines_replaceTokenAt hline hi hpos hlt label.index
  -- the new statement has another target with the same address
  have hstatement : PendingInstruction.statement ⟨line.number, new⟩ =
      { i.statement with core := "jmp" :: condition.toList ++ [toString label.index] } := by
    show Statement.ofTokens (tokens new) = _
    rw [htokens]
    exact Statement.ofTokens_set hcore
      (Statement.isDelay_eq_false_of_parse? (Literal.parse?_toString hle))
  have hencode : (PendingInstruction.statement ⟨line.number, new⟩).encode p.labels p.sideSet =
      i.statement.encode p.labels p.sideSet := by
    have hread := Instruction.read_jmp_congr (Instruction.address_toString hlabel hfree hle) condition
    rw [hstatement, Statement.encode, Statement.encode, hcore, hread]
    rfl
  rw [hposition]
  exact mapError_report_assemble_congr hp hline hi hlines hencode

/-- A conditional jump forward, with both modifiers and a comment that holds the label too. -/
theorem assemble_replaceTarget_forward :
    let text := ".side_set 1\n jmp !x, end side 1 [2] ; end\nnop side 0\nend:\nnop side 0"
    let text' := ".side_set 1\n jmp !x, 2 side 1 [2] ; end\nnop side 0\nend:\nnop side 0"
    Defines (lines text) ⟨"end", 2, 4⟩ ∧ replaceTokenAt text 2 2 "2" = text' ∧
      (assemble text').mapError SourceError.report = (assemble text).mapError SourceError.report := by
  intro text text'
  let p : Program :=
    { name := none, sideSet := 1, labels := ⟨[⟨"end", 2, 4⟩], by decide⟩
      instructions := #[⟨2, "jmp !x, end side 1 [2]"⟩, ⟨3, "nop side 0"⟩, ⟨5, "nop side 0"⟩] }
  let i : PendingInstruction := ⟨2, "jmp !x, end side 1 [2]"⟩
  let line : Line := ⟨2, i.text, .instruction i.text⟩
  have hp : Program.ofLines (lines text) = .ok p := by
    unfold text
    rfl
  have hline : line ∈ lines text := by
    unfold text
    decide
  have hreplace : replaceTokenAt text 2 2 "2" = text' := by
    unfold text text'
    decide
  have hsize : text.length ≤ Literal.maxMagnitude := by decide
  have hi : line.pending? = some i := rfl
  have hcore : i.statement.core = ["jmp", "!x", "end"] := by decide
  have hlabel : p.labels.find? "end" = some ⟨"end", 2, 4⟩ := rfl
  have hfree : p.labels.find? (toString 2) = none := rfl
  obtain ⟨hdefines, heq⟩ :=
    assemble_replaceTarget hsize hp hline hi (.inr ⟨"!x", hcore⟩) hlabel hfree
  rw [hcore] at heq
  change (assemble (replaceTokenAt text 2 2 "2")).mapError _ = _ at heq
  rw [hreplace] at heq
  exact ⟨hdefines, hreplace, heq⟩

end PioKit
