import PioKit.Program
import PioKit.Statement

/-!
# Assembling a program text

A text is first collected into a program and then encoded, instruction by instruction, with the
complete label table and the final side-set width. So a fault of the first kind is reported before
any of the second kind, wherever the lines stand.

Each part of the work makes its reports as it goes: the lines while they are read, the program and
its labels once it is collected, and each instruction when it has its word. The reports end where the
assembly ends: after the lines if they make no program, and before the first instruction that cannot
be encoded.
-/

namespace PioKit

/-! ## Encoding -/

/-- A word as a report shows it: four lower-case hexadecimal digits after `0x`. -/
def Word.describe (w : Word) : String :=
  "0x" ++ String.ofList ((Numeral.hex 4 w.toNat).map Char.toLower)

/-- The word of an instruction. -/
def PendingInstruction.encode (labels : LabelTable) (width : Nat) (i : PendingInstruction) :
    Except SourceError Word :=
  ((Statement.ofTokens (Source.tokens i.text)).encode labels width).mapError fun fault =>
    { fault, line := i.line, text := i.text }

/-- Encodes an instruction, and reports it with its word. -/
def PendingInstruction.encoding (labels : LabelTable) (width : Nat) (i : PendingInstruction) :
    ExceptT SourceError Logged Word := do
  let word ← i.encode labels width
  Logged.report .debug .encoding s!"line {i.line}: {padRight 24 i.text} {word.describe}"
  return word

/-- Encodes the instructions of a program in order, up to the first that cannot be encoded. -/
def Program.encoding (p : Program) : ExceptT SourceError Logged (List Word) :=
  p.instructions.toList.mapM (PendingInstruction.encoding p.labels p.sideSet)

/-- The words of the instructions of a program. -/
def Program.encode (p : Program) : Except SourceError (List Word) :=
  p.encoding.run.result

/-! ## Assembling -/

/-- A program in machine form. -/
structure Assembly where
  /-- The name of the program. -/
  name : Option String
  /-- The side-set width that the words were encoded for. -/
  sideSet : Nat
  /-- One word per instruction. -/
  code : List Word
  deriving DecidableEq, Repr

/-- The size of the code in bytes. -/
def Assembly.byteSize (a : Assembly) : Nat :=
  2 * a.code.length

/-- A program's name as a report shows it. -/
def describeName : Option String → String
  | none => "None"
  | some name => "Some(" ++ Text.quoted name ++ ")"

/-- A label as a report shows it. -/
def Label.describe (label : Label) : String :=
  s!"label {label.name} -> {label.index} (line {label.line})"

/-- Reports a program that has been collected, and its labels in the order of their texts. -/
def Program.announce (p : Program) : Logged Unit := do
  let name := describeName p.name
  let instructions := p.instructions.size
  let labels := p.labels.size
  Logged.report .debug .collecting
    s!"program {name}: {instructions} instructions, {labels} labels, side_set {p.sideSet}"
  ((p.labels.entries.map Label.describe).mergeSort).forM (Logged.report .trace .collecting)

/-- Assembles a program text. -/
def assembling (text : String) : ExceptT SourceError Logged Assembly := do
  let lines ← Source.reading text
  let p ← Program.ofLines lines
  p.announce
  return { name := p.name, sideSet := p.sideSet, code := ← p.encoding }

/-- The machine form of a program text. -/
def assemble (text : String) : Except SourceError Assembly :=
  (assembling text).run.result

/-- The reports of assembling a text. -/
def journal (text : String) : List Report :=
  (assembling text).run.reports

/-! ## Reports and results -/

theorem PendingInstruction.run_encoding_of_ok {labels : LabelTable} {width : Nat}
    {i : PendingInstruction} {word : Word} (h : i.encode labels width = .ok word) :
    (i.encoding labels width).run =
      ⟨[⟨.debug, .encoding, s!"line {i.line}: {padRight 24 i.text} {word.describe}"⟩], .ok word⟩ := by
  rw [encoding, h, Logged.run_liftM_ok_bind, Logged.run_liftM_bind]
  rfl

/-- An instruction that cannot be encoded is not reported. -/
theorem PendingInstruction.run_encoding_of_error {labels : LabelTable} {width : Nat}
    {i : PendingInstruction} {e : SourceError} (h : i.encode labels width = .error e) :
    (i.encoding labels width).run = ⟨[], .error e⟩ := by
  rw [encoding, h, Logged.run_liftM_error_bind]
  rfl

theorem Program.encode_eq_mapM (p : Program) :
    p.encode = p.instructions.toList.mapM (PendingInstruction.encode p.labels p.sideSet) := by
  have hresult : ∀ i : PendingInstruction,
      (i.encoding p.labels p.sideSet).run.result = i.encode p.labels p.sideSet := by
    intro i
    cases h : i.encode p.labels p.sideSet with
    | ok word => rw [PendingInstruction.run_encoding_of_ok h]
    | error e => rw [PendingInstruction.run_encoding_of_error h]
  rw [encode, encoding, Logged.result_run_mapM]
  simp only [hresult]

/-- If the lines make no program, nothing but the lines is reported. -/
theorem run_assembling_of_error {text : String} {e : SourceError}
    (h : Program.ofLines (Source.lines text) = .error e) :
    (assembling text).run = ⟨(Source.reading text).reports, .error e⟩ := by
  have hlines : Program.ofLines (Source.reading text).result = .error e := h
  rw [assembling, Logged.run_liftM_bind]
  apply Logged.ext
  · rw [Logged.reports_bind, hlines, Logged.run_liftM_error_bind]
    exact List.append_nil _
  · rw [Logged.result_bind, hlines, Logged.run_liftM_error_bind]
    rfl

theorem run_assembling_of_ok {text : String} {p : Program}
    (h : Program.ofLines (Source.lines text) = .ok p) :
    (assembling text).run =
      ⟨(Source.reading text).reports ++ (p.announce.reports ++ p.encoding.run.reports),
        p.encode.map fun code => ⟨p.name, p.sideSet, code⟩⟩ := by
  have hlines : Program.ofLines (Source.reading text).result = .ok p := h
  rw [assembling, Logged.run_liftM_bind]
  apply Logged.ext
  · rw [Logged.reports_bind, hlines, Logged.run_liftM_ok_bind, Logged.run_liftM_bind,
      Logged.reports_bind, bind_pure_comp, ExceptT.run_map, Logged.reports_map]
  · rw [Logged.result_bind, hlines, Logged.run_liftM_ok_bind, Logged.run_liftM_bind,
      Logged.result_bind, bind_pure_comp, ExceptT.run_map, Logged.result_map]
    rfl

theorem assemble_of_ofLines_error {text : String} {e : SourceError}
    (h : Program.ofLines (Source.lines text) = .error e) : assemble text = .error e := by
  rw [assemble, run_assembling_of_error h]

theorem assemble_of_ofLines_ok {text : String} {p : Program}
    (h : Program.ofLines (Source.lines text) = .ok p) :
    assemble text = p.encode.map fun code => ⟨p.name, p.sideSet, code⟩ := by
  rw [assemble, run_assembling_of_ok h]

end PioKit
