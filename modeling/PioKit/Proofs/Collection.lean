import PioKit.Program
import PioKit.Proofs.Grammar

/-!
# Lines and the program they are collected to

Every line of a text carries the number of the raw line it comes from and that raw line without its
comment. `Program.Adds` says what taking in one line can do to a program, line kind by line kind, and
`addContent_eq_ok_iff` that this is all it does; what a whole text does follows by induction over its
lines.
-/

namespace PioKit

namespace Source

theorem Line.ofRaw?_eq_some_iff {raw : List Char} {number : Nat} {line : Line} :
    Line.ofRaw? raw number = some line ↔
      strip raw ≠ [] ∧ line = ⟨number, String.ofList (strip raw), Content.ofText (strip raw)⟩ := by
  unfold Line.ofRaw?
  by_cases h : strip raw = []
  · simp [h]
  · have hempty : (strip raw).isEmpty = false := by simpa using h
    simp only [hempty, Bool.false_eq_true, if_false]
    constructor
    · intro hsome
      cases hsome
      exact ⟨h, rfl⟩
    · rintro ⟨-, rfl⟩
      rfl

/-- A line is what is left of the raw line of its number. -/
theorem exists_raw_of_mem_lines {text : String} {line : Line} (h : line ∈ lines text) :
    ∃ raw, 0 < line.number ∧ (Text.lines '\n' '\r' text.toList)[line.number - 1]? = some raw ∧
      line.text = String.ofList (strip raw) ∧ line.content = Content.ofText (strip raw) := by
  rw [lines_eq_filterMap] at h
  obtain ⟨⟨raw, number⟩, hraw, hline⟩ := List.mem_filterMap.mp h
  obtain ⟨hpos, hget⟩ := List.mk_mem_zipIdx_iff_le_and_getElem?_sub.mp hraw
  obtain ⟨-, rfl⟩ := Line.ofRaw?_eq_some_iff.mp hline
  exact ⟨raw, hpos, hget, rfl, rfl⟩

theorem Content.eq_of_ofText_eq_instruction {cs : List Char} {t : String}
    (h : Content.ofText cs = .instruction t) : t = String.ofList cs := by
  unfold Content.ofText at h
  split at h
  · split at h <;> cases h
  · split at h
    · cases h
    · cases h
      rfl

/-- The instruction that a line holds. -/
def Line.pending? (line : Line) : Option PendingInstruction :=
  match line.content with
  | .instruction text => some { line := line.number, text }
  | _ => none

/-- The instruction of a line has the number and the whole text of the line. -/
theorem eq_of_pending?_eq_some {text : String} {line : Line} {i : PendingInstruction}
    (hmem : line ∈ lines text) (h : line.pending? = some i) :
    i = { line := line.number, text := line.text } := by
  obtain ⟨raw, -, -, htext, hcontent⟩ := exists_raw_of_mem_lines hmem
  unfold Line.pending? at h
  split at h
  · next t ht =>
    cases h
    rw [hcontent] at ht
    rw [htext, Content.eq_of_ofText_eq_instruction ht]
  · cases h

end Source

namespace Program

open Instruction (IsNumeral)

/-- What taking in a line with the given content makes of a program. -/
inductive Adds (p : Program) (line : Nat) : Source.Content → Program → Prop where
  | name {name : String} {arguments : List String} (h : p.name = none) :
      Adds p line (.directive ".program" (name :: arguments)) { p with name := some name }
  | sideSet {token : String} {arguments : List String} {width : Nat} (hw : IsNumeral token width)
      (hle : width ≤ 255) :
      Adds p line (.directive ".side_set" (token :: arguments)) { p with sideSet := width }
  | wrapTarget {arguments : List String} (h : p.instructions.isEmpty = true) :
      Adds p line (.directive ".wrap_target" arguments) p
  | wrap {arguments : List String} : Adds p line (.directive ".wrap" arguments) p
  | label {name : String} {labels : LabelTable} (hname : name ≠ "")
      (hdef : p.labels.define { name, index := p.instructions.size, line } = .ok labels) :
      Adds p line (.label name) { p with labels }
  | instruction {text : String} :
      Adds p line (.instruction text)
        { p with instructions := p.instructions.push { line, text } }

theorem adds_of_setName {p p' : Program} {line : Nat} {arguments : List String}
    (h : p.setName arguments = .ok p') : Adds p line (.directive ".program" arguments) p' := by
  unfold setName at h
  split at h
  · cases h
  · split at h
    · cases h
    · next hname =>
      cases h
      exact .name (by simpa using hname)

theorem adds_of_setSideSet {p p' : Program} {line : Nat} {arguments : List String}
    (h : p.setSideSet arguments = .ok p') : Adds p line (.directive ".side_set" arguments) p' := by
  unfold setSideSet at h
  split at h
  · cases h
  · obtain ⟨value, hv, h⟩ := bind_eq_ok_iff.mp h
    split at h
    · next hrange =>
      cases h
      obtain ⟨width, rfl⟩ := Int.eq_ofNat_of_zero_le hrange.1
      have hle : width ≤ 255 := Int.ofNat_le.mp hrange.2
      exact .sideSet (Instruction.literal_read_eq_ok_iff.mp hv) hle
    · cases h

theorem adds_of_addDirective {p p' : Program} {line : Nat} {keyword : String}
    {arguments : List String} (h : p.addDirective keyword arguments = .ok p') :
    Adds p line (.directive keyword arguments) p' := by
  unfold addDirective at h
  split at h
  · next hk =>
    subst hk
    exact adds_of_setName h
  · split at h
    · next hk =>
      subst hk
      exact adds_of_setSideSet h
    · split at h
      · next hk =>
        subst hk
        split at h
        · next hempty =>
          cases h
          exact .wrapTarget hempty
        · cases h
      · split at h
        · next hk =>
          subst hk
          cases h
          exact .wrap
        · cases h

theorem adds_of_addContent {p p' : Program} {line : Nat} {content : Source.Content}
    (h : p.addContent line content = .ok p') : Adds p line content p' := by
  cases content with
  | directive keyword arguments => exact adds_of_addDirective h
  | label name =>
    by_cases hname : name = ""
    · subst hname
      cases h
    · obtain ⟨labels, hdef, hp⟩ : ∃ labels,
          p.labels.define { name, index := p.instructions.size, line } = .ok labels ∧
            { p with labels } = p' := by
        simpa [addContent, addLabel, hname, bind_eq_ok_iff, pure, Except.pure] using h
      subst hp
      exact .label hname hdef
  | instruction text =>
    cases h
    exact .instruction

theorem addContent_of_adds {p p' : Program} {line : Nat} {content : Source.Content}
    (h : Adds p line content p') : p.addContent line content = .ok p' := by
  cases h with
  | name h => simp [addContent, addDirective, setName, h]
  | sideSet hw hle =>
    have hread := Instruction.literal_read_eq_ok_iff.mpr hw
    have hle' : (_ : Int) ≤ maxSideSet := Int.ofNat_le.mpr hle
    simp [addContent, addDirective, setSideSet, hread, hle', bind, Except.bind, pure, Except.pure]
  | wrapTarget h => simp [addContent, addDirective, h]
  | wrap => rfl
  | label hname hdef =>
    simp [addContent, addLabel, hname, hdef, bind, Except.bind, pure, Except.pure]
  | instruction => rfl

/-- A line is taken in exactly if it adds something. -/
theorem addContent_eq_ok_iff {p p' : Program} {line : Nat} {content : Source.Content} :
    p.addContent line content = .ok p' ↔ Adds p line content p' :=
  ⟨adds_of_addContent, addContent_of_adds⟩

theorem addLine_eq_ok_iff {p p' : Program} {line : Source.Line} :
    p.addLine line = .ok p' ↔ Adds p line.number line.content p' := by
  rw [addLine, mapError_eq_ok_iff, addContent_eq_ok_iff]

theorem addLine_eq_error_iff {p : Program} {line : Source.Line} {e : SourceError} :
    p.addLine line = .error e ↔
      ∃ fault, p.addContent line.number line.content = .error fault ∧
        e = ⟨fault, line.number, line.text⟩ := by
  rw [addLine, mapError_eq_error_iff]
  simp only [eq_comm]

/-- One line appends the instruction that it holds, if it holds one. -/
theorem instructions_of_adds {p p' : Program} {line : Source.Line}
    (h : Adds p line.number line.content p') :
    p'.instructions.toList = p.instructions.toList ++ line.pending?.toList := by
  obtain ⟨number, text, content⟩ := line
  cases h <;> simp [Source.Line.pending?]

/-- The instructions of a program are those of its lines, in order. -/
theorem instructions_of_foldlM {lines : List Source.Line} {p p' : Program}
    (h : lines.foldlM addLine p = .ok p') :
    p'.instructions.toList =
      p.instructions.toList ++ lines.filterMap Source.Line.pending? := by
  -- every step appends at the end, so the instructions collected so far stay in front
  induction lines generalizing p with
  | nil =>
    cases h
    simp
  | cons line lines ih =>
    rw [List.foldlM_cons, bind_eq_ok_iff] at h
    obtain ⟨q, hq, h⟩ := h
    rw [ih h, instructions_of_adds (addLine_eq_ok_iff.mp hq), List.append_assoc,
      List.filterMap_cons]
    cases line.pending? <;> rfl

theorem instructions_of_ofLines {lines : List Source.Line} {p : Program}
    (h : ofLines lines = .ok p) :
    p.instructions.toList = lines.filterMap Source.Line.pending? :=
  instructions_of_foldlM h

end Program

end PioKit
