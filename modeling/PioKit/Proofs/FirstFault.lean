import PioKit.Proofs.Collection
import PioKit.Proofs.Field

/-!
# The first fault wins

An assembly has two passes, and each stops at its first fault. `Outcome text r` says what a text comes
to without running either pass to its end: the first line that the program of the lines before it
refuses; else the first instruction that cannot be encoded; else one word per instruction. Since every
line is collected before any is encoded, a line that is refused is reported even if an instruction
before it could not be encoded.
-/

namespace PioKit

open Source (Line)

/-- What a text comes to. -/
inductive Outcome (text : String) : Except SourceError Assembly → Prop where
  /-- The lines before `line` make a program, which refuses `line`. -/
  | refused {before after : List Line} {line : Line} {p : Program} {fault : Fault}
      (hlines : Source.lines text = before ++ line :: after)
      (hbefore : Program.ofLines before = .ok p)
      (hline : p.addContent line.number line.content = .error fault) :
      Outcome text (.error ⟨fault, line.number, line.text⟩)
  /-- All lines make a program; the instructions before `line` can be encoded and that of `line`
  cannot. -/
  | unencodable {before after : List Line} {line : Line} {i : PendingInstruction} {p : Program}
      {fault : Fault} (hp : Program.ofLines (Source.lines text) = .ok p)
      (hlines : Source.lines text = before ++ line :: after)
      (hbefore : ∀ j ∈ before.filterMap Line.pending?, ∃ w, j.encode p.labels p.sideSet = .ok w)
      (hi : line.pending? = some i)
      (hfault : i.statement.encode p.labels p.sideSet = .error fault) :
      Outcome text (.error ⟨fault, line.number, line.text⟩)
  /-- All lines make a program, and word number `k` is that of instruction number `k`. -/
  | assembled {p : Program} {code : List Word} (hp : Program.ofLines (Source.lines text) = .ok p)
      (hlen : code.length = ((Source.lines text).filterMap Line.pending?).length)
      (hcode : ∀ (k : Nat) (i : PendingInstruction),
        ((Source.lines text).filterMap Line.pending?)[k]? = some i →
          ∃ w, code[k]? = some w ∧ i.encode p.labels p.sideSet = .ok w) :
      Outcome text (.ok ⟨p.name, p.sideSet, code⟩)

theorem ofLines_eq_error_iff {lines : List Line} {e : SourceError} :
    Program.ofLines lines = .error e ↔
      ∃ before line after p fault, lines = before ++ line :: after ∧
        Program.ofLines before = .ok p ∧
        p.addContent line.number line.content = .error fault ∧
        e = ⟨fault, line.number, line.text⟩ := by
  rw [Program.ofLines, foldlM_eq_error_iff]
  constructor
  · rintro ⟨before, line, after, p, hlines, hbefore, he⟩
    obtain ⟨fault, hfault, rfl⟩ := Program.addLine_eq_error_iff.mp he
    exact ⟨before, line, after, p, fault, hlines, hbefore, hfault, rfl⟩
  · rintro ⟨before, line, after, p, fault, hlines, hbefore, hfault, rfl⟩
    exact ⟨before, line, after, p, hlines, hbefore,
      Program.addLine_eq_error_iff.mpr ⟨fault, hfault, rfl⟩⟩

theorem PendingInstruction.encode_eq_error_iff {labels : LabelTable} {width : Nat}
    {i : PendingInstruction} {e : SourceError} :
    i.encode labels width = .error e ↔
      ∃ fault, i.statement.encode labels width = .error fault ∧ e = ⟨fault, i.line, i.text⟩ := by
  rw [PendingInstruction.encode, mapError_eq_error_iff]
  simp only [eq_comm, statement]

/-- The first instruction that cannot be encoded stands on a line of its own, and the instructions
before it are those of the lines before that one. -/
theorem encode_eq_error_iff {text : String} {p : Program}
    (hp : Program.ofLines (Source.lines text) = .ok p) {e : SourceError} :
    p.encode = .error e ↔
      ∃ before line after i fault, Source.lines text = before ++ line :: after ∧
        (∀ j ∈ before.filterMap Line.pending?, ∃ w, j.encode p.labels p.sideSet = .ok w) ∧
        line.pending? = some i ∧ i.statement.encode p.labels p.sideSet = .error fault ∧
        e = ⟨fault, line.number, line.text⟩ := by
  rw [Program.encode_eq_mapM, Program.instructions_of_ofLines hp, mapM_eq_error_iff]
  constructor
  · rintro ⟨front, i, rest, hsplit, hfront, he⟩
    -- the lines between the last encoded instruction and the refused one hold no instruction
    obtain ⟨l₁, l₂, hlines, rfl, htail⟩ := List.filterMap_eq_append_iff.mp hsplit
    obtain ⟨skipped, line, after, rfl, hskipped, hi, -⟩ := List.filterMap_eq_cons_iff.mp htail
    have hnone : skipped.filterMap Line.pending? = [] := List.filterMap_eq_nil_iff.mpr hskipped
    have hmem : line ∈ Source.lines text := by
      rw [hlines]
      simp
    obtain ⟨fault, hfault, rfl⟩ := PendingInstruction.encode_eq_error_iff.mp he
    refine ⟨l₁ ++ skipped, line, after, i, fault, ?_, ?_, hi, hfault, ?_⟩
    · rw [hlines, List.append_assoc]
    · rw [List.filterMap_append, hnone, List.append_nil]
      exact hfront
    · rw [Source.eq_of_pending?_eq_some hmem hi]
  · rintro ⟨before, line, after, i, fault, hlines, hbefore, hi, hfault, rfl⟩
    have hmem : line ∈ Source.lines text := by
      rw [hlines]
      simp
    refine ⟨before.filterMap Line.pending?, i, after.filterMap Line.pending?, ?_, hbefore, ?_⟩
    · rw [hlines, List.filterMap_append, List.filterMap_cons, hi]
    · refine PendingInstruction.encode_eq_error_iff.mpr ⟨fault, hfault, ?_⟩
      rw [Source.eq_of_pending?_eq_some hmem hi]

theorem encode_eq_ok_iff {text : String} {p : Program}
    (hp : Program.ofLines (Source.lines text) = .ok p) {code : List Word} :
    p.encode = .ok code ↔
      code.length = ((Source.lines text).filterMap Line.pending?).length ∧
        ∀ (k : Nat) (i : PendingInstruction),
          ((Source.lines text).filterMap Line.pending?)[k]? = some i →
            ∃ w, code[k]? = some w ∧ i.encode p.labels p.sideSet = .ok w := by
  rw [Program.encode_eq_mapM, Program.instructions_of_ofLines hp, mapM_eq_ok_iff]

theorem outcome_assemble (text : String) : Outcome text (assemble text) := by
  cases hp : Program.ofLines (Source.lines text) with
  | error e =>
    rw [assemble_of_ofLines_error hp]
    obtain ⟨before, line, after, p, fault, hlines, hbefore, hfault, rfl⟩ :=
      ofLines_eq_error_iff.mp hp
    exact .refused hlines hbefore hfault
  | ok p =>
    rw [assemble_of_ofLines_ok hp]
    cases hcode : p.encode with
    | error e =>
      obtain ⟨before, line, after, i, fault, hlines, hbefore, hi, hfault, rfl⟩ :=
        (encode_eq_error_iff hp).mp hcode
      exact .unencodable hp hlines hbefore hi hfault
    | ok code =>
      obtain ⟨hlen, hall⟩ := (encode_eq_ok_iff hp).mp hcode
      exact .assembled hp hlen hall

theorem assemble_of_outcome {text : String} {r : Except SourceError Assembly}
    (h : Outcome text r) : assemble text = r := by
  cases h with
  | refused hlines hbefore hline =>
    exact assemble_of_ofLines_error
      (ofLines_eq_error_iff.mpr ⟨_, _, _, _, _, hlines, hbefore, hline, rfl⟩)
  | unencodable hp hlines hbefore hi hfault =>
    rw [assemble_of_ofLines_ok hp,
      (encode_eq_error_iff hp).mpr ⟨_, _, _, _, _, hlines, hbefore, hi, hfault, rfl⟩]
    rfl
  | assembled hp hlen hcode =>
    rw [assemble_of_ofLines_ok hp, (encode_eq_ok_iff hp).mpr ⟨hlen, hcode⟩]
    rfl

/-- The outcome of an assembly is the first refused line, else the first instruction that cannot be
encoded, else a word for every instruction; and the number and the text that a line is reported with
are those of its raw line, trimmed, cut at the first semicolon and trimmed again. -/
theorem assemble_eq_iff_outcome (text : String) :
    (∀ r, assemble text = r ↔ Outcome text r) ∧
    ∀ line ∈ Source.lines text, ∃ raw, 0 < line.number ∧
      (Text.lines '\n' '\r' text.toList)[line.number - 1]? = some raw ∧
      line.text = String.ofList (Text.trim (Source.withoutComment (Text.trim raw))) := by
  refine ⟨fun r => ⟨?_, assemble_of_outcome⟩, ?_⟩
  · rintro rfl
    exact outcome_assemble text
  · intro line hmem
    obtain ⟨raw, hpos, hraw, htext, -⟩ := Source.exists_raw_of_mem_lines hmem
    exact ⟨raw, hpos, hraw, htext⟩

/-- A label that is defined twice is reported before an unknown instruction above it. -/
theorem assemble_eq_iff_outcome_duplicate :
    assemble "frobnicate\na:\n a: ; again" = .error ⟨.duplicateLabel "a", 3, "a:"⟩ ∧
      Outcome "frobnicate\na:\n a: ; again" (.error ⟨.duplicateLabel "a", 3, "a:"⟩) := by
  have h : assemble "frobnicate\na:\n a: ; again" = .error ⟨.duplicateLabel "a", 3, "a:"⟩ :=
    rfl
  exact ⟨h, ((assemble_eq_iff_outcome "frobnicate\na:\n a: ; again").1 _).mp h⟩

end PioKit
