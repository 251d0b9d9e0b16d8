import PioKit.Proofs.Declarations
import PioKit.Proofs.RawLines
import PioKit.Proofs.Rewriting

/-!
# Replacing an instruction

`replaceLine` puts another raw line in the place of one. If both hold an instruction, the lines of the
text are rewritten in that place and nowhere else, and labels, width and the other instructions are
collected as before. So the other words stay, and the only line that can be refused is the new one:
`assemble_replaceLine`.
-/

namespace PioKit

namespace Source

/-- The text with another raw line in the place of the one with the given number. -/
def replaceLine (text : String) (number : Nat) (raw : List Char) : String :=
  String.ofList (['\n'].intercalate ((rawLines text).set (number - 1) raw))

/-- What is left of the raw line is an instruction. -/
def HoldsInstruction (raw : List Char) : Prop :=
  strip raw ≠ [] ∧ Content.ofText (strip raw) = .instruction (String.ofList (strip raw))

theorem rawLines_replaceLine {raw : List Char} (h : '\n' ∉ raw) (text : String) (number : Nat) :
    rawLines (replaceLine text number raw) = (rawLines text).set (number - 1) raw := by
  have hne : (rawLines text).set (number - 1) raw ≠ [] := by
    rw [Ne, List.set_eq_nil_iff]
    exact List.splitOnP_ne_nil _ _
  have hfeed : ∀ piece ∈ (rawLines text).set (number - 1) raw, '\n' ∉ piece := by
    intro piece hpiece
    rcases List.mem_or_eq_of_mem_set hpiece with hmem | rfl
    · exact feed_not_mem_of_mem_rawLines hmem
    · exact h
  rw [rawLines, replaceLine, String.toList_ofList]
  exact List.splitOn_intercalate '\n' hfeed hne

theorem ofRaw?_of_holdsInstruction {raw : List Char} (h : HoldsInstruction raw) (number : Nat) :
    Line.ofRaw? raw number =
      some ⟨number, String.ofList (strip raw), .instruction (String.ofList (strip raw))⟩ := by
  rw [← h.2]
  exact Line.ofRaw?_eq_some_iff.mpr ⟨h.1, rfl⟩

/-- The lines after a replacement are those before it, rewritten on one line. -/
theorem lines_replaceLine {text : String} {line : Line} {i : PendingInstruction}
    (hline : line ∈ lines text) (hi : line.pending? = some i) {raw : List Char}
    (hfeed : '\n' ∉ raw) (hraw : HoldsInstruction raw) :
    lines (replaceLine text line.number raw) =
      (lines text).map (Rewriting.replace line.number (String.ofList (strip raw))).line := by
  set r := Rewriting.replace line.number (String.ofList (strip raw)) with hr
  rw [lines_eq_linesFrom] at hline
  obtain ⟨before, old, after, hraws, hnumber, hold⟩ := exists_raw_of_mem_linesFrom hline
  have hset : (rawLines text).set (line.number - 1) raw = before ++ raw :: after := by
    have hplace : line.number - 1 = before.length := by omega
    rw [hraws, hplace, List.set_append_right _ _ (Nat.le_refl _), Nat.sub_self, List.set_cons_zero]
  have hkeep : ∀ start raws, (∀ other ∈ linesFrom start raws, other.number ≠ line.number) →
      (linesFrom start raws).map r.line = linesFrom start raws := by
    intro start raws hne
    rw [List.map_congr_left fun other hother =>
      Rewriting.line_replace_of_ne (hne other hother) _]
    exact List.map_id _
  have hbefore := hkeep 1 before fun other hother => by
    have := (number_bounds_of_mem_linesFrom hother).2
    omega
  have hafter := hkeep (1 + before.length + 1) after fun other hother => by
    have := (number_bounds_of_mem_linesFrom hother).1
    omega
  have hnew : r.line line =
      ⟨line.number, String.ofList (strip raw), .instruction (String.ofList (strip raw))⟩ := by
    obtain ⟨number, text, content⟩ := line
    cases content with
    | instruction body => simp [Rewriting.line, hr, Rewriting.replace]
    | directive keyword arguments => cases hi
    | label name => cases hi
  rw [lines_eq_linesFrom, rawLines_replaceLine hfeed, hset, lines_eq_linesFrom, hraws,
    linesFrom_append, linesFrom_append, linesFrom_cons, linesFrom_cons, ← hnumber,
    ofRaw?_of_holdsInstruction hraw, hold, List.map_append, List.map_append, hbefore, hnumber,
    hafter]
  simp [hnew, hnumber]

/-! ## The instructions of a text -/

theorem line_of_pending?_eq_some {line : Line} {i : PendingInstruction}
    (h : line.pending? = some i) : i.line = line.number := by
  unfold Line.pending? at h
  split at h
  · cases h
    rfl
  · cases h

theorem exists_line_of_mem_pending {text : String} {i : PendingInstruction}
    (h : i ∈ pending (lines text)) :
    ∃ line ∈ lines text, line.pending? = some i ∧ line.number = i.line := by
  obtain ⟨line, hline, hi⟩ := List.mem_filterMap.mp h
  exact ⟨line, hline, hi, (line_of_pending?_eq_some hi).symm⟩

/-- The instructions of a text stand on different lines. -/
theorem pairwise_line_pending (text : String) :
    (pending (lines text)).Pairwise fun i j => i.line ≠ j.line := by
  have hlines := pairwise_number_linesFrom 1 (rawLines text)
  rw [← lines_eq_linesFrom] at hlines
  refine hlines.filterMap Line.pending? fun earlier later hlt i hi j hj => ?_
  rw [line_of_pending?_eq_some hi, line_of_pending?_eq_some hj]
  exact Nat.ne_of_lt hlt

theorem map_pending_replace {is : List PendingInstruction}
    (h : is.Pairwise fun i j => i.line ≠ j.line) {k : Nat} {i : PendingInstruction}
    (hk : is[k]? = some i) (new : String) :
    is.map (Rewriting.replace i.line new).pending = is.set k ⟨i.line, new⟩ := by
  obtain ⟨hlt, rfl⟩ := List.getElem?_eq_some_iff.mp hk
  refine List.ext_getElem (by simp) fun j hj hj' => ?_
  rw [List.getElem_map, List.getElem_set, Rewriting.pending_replace]
  by_cases hjk : k = j
  · subst hjk
    simp
  · rw [if_neg hjk, if_neg]
    rw [List.length_map] at hj
    have hpair := List.pairwise_iff_getElem.mp h
    rcases Nat.lt_or_gt_of_ne hjk with hlt' | hgt
    · exact (hpair k j hlt hj hlt').symm
    · exact hpair j k hj hlt hgt

end Source

open Source

/-- An assembly is the name, the width and the words of the program of its text. -/
theorem exists_program_of_assemble {text : String} {a : Assembly} (h : assemble text = .ok a) :
    ∃ p code, Program.ofLines (lines text) = .ok p ∧ p.encode = .ok code ∧
      a = ⟨p.name, p.sideSet, code⟩ := by
  cases hp : Program.ofLines (lines text) with
  | error e =>
    rw [assemble_of_ofLines_error hp] at h
    cases h
  | ok p =>
    rw [assemble_of_ofLines_ok hp] at h
    cases hcode : p.encode with
    | error e =>
      rw [hcode] at h
      cases h
    | ok code =>
      rw [hcode] at h
      cases h
      exact ⟨p, code, rfl, hcode, rfl⟩

/-- The word of the new instruction takes the place of the old word, or the new instruction is
refused. -/
theorem assemble_replaceLine_eq {text : String} {p : Program} {code : List Word}
    (hp : Program.ofLines (lines text) = .ok p) (hcode : p.encode = .ok code) {k : Nat}
    {i : PendingInstruction} (hk : (pending (lines text))[k]? = some i) {raw : List Char}
    (hfeed : '\n' ∉ raw) (hraw : HoldsInstruction raw) :
    assemble (replaceLine text i.line raw) =
      (PendingInstruction.encode p.labels p.sideSet ⟨i.line, String.ofList (strip raw)⟩).map
        fun w => ⟨p.name, p.sideSet, code.set k w⟩ := by
  set new := String.ofList (strip raw)
  have hlist : p.instructions.toList = pending (lines text) := Program.instructions_of_ofLines hp
  rw [Program.encode_eq_mapM, hlist] at hcode
  obtain ⟨line, hline, hi, hnumber⟩ := exists_line_of_mem_pending (List.mem_of_getElem? hk)
  have hlines := lines_replaceLine hline hi hfeed hraw
  rw [hnumber] at hlines
  have hlt : k < (pending (lines text)).length := (List.getElem?_eq_some_iff.mp hk).1
  have hwords : ((pending (lines text)).mapM fun j =>
      ((Rewriting.replace i.line new).pending j).encode p.labels p.sideSet) =
        (PendingInstruction.encode p.labels p.sideSet ⟨i.line, new⟩).map (code.set k) := by
    rw [← mapM_set hcode hlt, ← map_pending_replace (pairwise_line_pending text) hk,
      List.mapM_map]
    rfl
  rw [Rewriting.assemble_of_lines_map _ hlines hp, hlist, hwords]
  cases PendingInstruction.encode p.labels p.sideSet ⟨i.line, new⟩ <;> rfl

/-- Every word of an assembly belongs to an instruction line. Another instruction on that line either
changes this word and nothing else, or its own line is the one that is refused. -/
theorem assemble_replaceLine {text : String} {a : Assembly} (ha : assemble text = .ok a) {k : Nat}
    (hk : k < a.code.length) :
    ∃ i, (pending (lines text))[k]? = some i ∧
      ∀ raw : List Char, '\n' ∉ raw → HoldsInstruction raw →
        (∃ b, assemble (replaceLine text i.line raw) = .ok b ∧ b.name = a.name ∧
          b.sideSet = a.sideSet ∧ b.code.length = a.code.length ∧
          ∀ j, j ≠ k → b.code[j]? = a.code[j]?) ∨
        ∃ e, assemble (replaceLine text i.line raw) = .error e ∧ e.line = i.line := by
  obtain ⟨p, code, hp, hcode, rfl⟩ := exists_program_of_assemble ha
  have hlength : code.length = (pending (lines text)).length := ((encode_eq_ok_iff hp).mp hcode).1
  obtain ⟨i, hi⟩ : ∃ i, (pending (lines text))[k]? = some i :=
    ⟨_, List.getElem?_eq_getElem (hlength ▸ hk)⟩
  refine ⟨i, hi, fun raw hfeed hraw => ?_⟩
  have heq := assemble_replaceLine_eq hp hcode hi hfeed hraw
  cases hnew : PendingInstruction.encode p.labels p.sideSet ⟨i.line, String.ofList (strip raw)⟩ with
  | ok w =>
    rw [hnew] at heq
    exact .inl ⟨_, heq, rfl, rfl, List.length_set, fun j hj => List.getElem?_set_ne hj.symm⟩
  | error e =>
    rw [hnew] at heq
    obtain ⟨fault, -, rfl⟩ := PendingInstruction.encode_eq_error_iff.mp hnew
    exact .inr ⟨_, heq, rfl⟩

/-- Two lines in place of the first of two words: one that is taken, and one with a delay that the
side-set width leaves no room for. -/
theorem assemble_replaceLine_delay :
    let text := ".side_set 1\nnop side 0\na: ; here\njmp a"
    let short := " set x, 1 [15]\r".toList
    let long := " set x, 1 [16]\r".toList
    assemble text = .ok ⟨none, 1, [0xA042, 0x0001]⟩ ∧
      ('\n' ∉ short ∧ HoldsInstruction short ∧
        ∃ b, assemble (replaceLine text 2 short) = .ok b ∧ b.name = none ∧ b.sideSet = 1 ∧
          b.code.length = 2 ∧ (∀ j, j ≠ 0 → b.code[j]? = [(0xA042 : Word), 0x0001][j]?) ∧
          b.code[0]? = some 0xEF21) ∧
      '\n' ∉ long ∧ HoldsInstruction long ∧
        ∃ e, assemble (replaceLine text 2 long) = .error e ∧ e.line = 2 := by
  intro text short long
  have ha : assemble text = .ok ⟨none, 1, [0xA042, 0x0001]⟩ := by
    unfold text
    rfl
  have hshort : '\n' ∉ short ∧ HoldsInstruction short := ⟨by decide, by decide, by decide⟩
  have hlong : '\n' ∉ long ∧ HoldsInstruction long := ⟨by decide, by decide, by decide⟩
  obtain ⟨i, hi, hnew⟩ := assemble_replaceLine ha (Nat.zero_lt_two)
  have hline : i = ⟨2, "nop side 0"⟩ := Option.some.inj (hi.symm.trans (by unfold text; rfl))
  subst hline
  have htaken : assemble (replaceLine text 2 short) = .ok ⟨none, 1, [0xEF21, 0x0001]⟩ := by
    decide +kernel
  have hrefused : (assemble (replaceLine text 2 long)).isOk = false := by decide +kernel
  refine ⟨ha, ⟨hshort.1, hshort.2, ?_⟩, hlong.1, hlong.2, ?_⟩
  · rcases hnew short hshort.1 hshort.2 with ⟨b, hb, hname, hside, hlength, hother⟩ | ⟨e, he, -⟩
    · refine ⟨b, hb, hname, hside, hlength, hother, ?_⟩
      cases hb.symm.trans htaken
      rfl
    · cases he.symm.trans htaken
  · rcases hnew long hlong.1 hlong.2 with ⟨b, hb, -⟩ | herror
    · rw [hb] at hrefused
      cases hrefused
    · exact herror

end PioKit
