import PioKit.Proofs.FirstFault

/-!
# Collecting rewritten lines

Collecting looks into directives and labels, but of an instruction line it only takes note that there
is one. So lines may be given other numbers, and instructions other texts, and the program collected
from them is the old one with these numbers and texts put in; a line that is refused is refused for
the same reason (`ofLines_map`). Encoding in turn does not look at the line of a label
(`read_labels`).
-/

namespace PioKit

namespace Source

/-- The line with another number. -/
def Line.renumber (f : Nat → Nat) (line : Line) : Line :=
  { line with number := f line.number }

/-- Other numbers for the lines of a text, and other texts for the instructions on them. -/
structure Rewriting where
  /-- The new number of a line. -/
  number : Nat → Nat
  /-- The new text of the instruction that stands on the line of the given number. -/
  text : Nat → String → String

namespace Rewriting

/-- Only the numbers of the lines change. -/
def renumber (f : Nat → Nat) : Rewriting :=
  ⟨f, fun _ text => text⟩

/-- Only the instruction on one line changes. -/
def replace (number : Nat) (new : String) : Rewriting :=
  ⟨id, fun n text => if n = number then new else text⟩

variable (r : Rewriting)

/-- A line with its new number and, if it holds an instruction, its new text. -/
def line (l : Line) : Line :=
  match l.content with
  | .instruction text =>
    ⟨r.number l.number, r.text l.number l.text, .instruction (r.text l.number text)⟩
  | content => ⟨r.number l.number, l.text, content⟩

def pending (i : PendingInstruction) : PendingInstruction :=
  ⟨r.number i.line, r.text i.line i.text⟩

def label (l : Label) : Label :=
  { l with line := r.number l.line }

def labels (table : LabelTable) : LabelTable where
  entries := table.entries.map r.label
  distinct := by
    rw [List.map_map]
    exact table.distinct

/-- A program whose labels and instructions stand on rewritten lines. -/
def program (p : Program) : Program :=
  { p with labels := r.labels p.labels, instructions := p.instructions.map r.pending }

/-- An error on a line with a new number. -/
def error (e : SourceError) : SourceError :=
  { e with line := r.number e.line }

theorem line_renumber (f : Nat → Nat) : (renumber f).line = Line.renumber f := by
  funext ⟨number, text, content⟩
  cases content <;> rfl

theorem line_replace_of_ne {number : Nat} {l : Line} (h : l.number ≠ number) (new : String) :
    (replace number new).line l = l := by
  obtain ⟨n, text, content⟩ := l
  have hn : ¬ n = number := h
  cases content <;> simp [line, replace, hn]

theorem pending_replace (number : Nat) (new : String) (i : PendingInstruction) :
    (replace number new).pending i = if i.line = number then ⟨i.line, new⟩ else i := by
  by_cases h : i.line = number <;> simp [pending, replace, h]

/-! ## Labels -/

theorem find?_labels (table : LabelTable) (name : String) :
    (r.labels table).find? name = (table.find? name).map r.label := by
  show (table.entries.map r.label).find? _ = (table.entries.find? _).map r.label
  rw [List.find?_map]
  rfl

@[simp] theorem address?_labels (table : LabelTable) (name : String) :
    (r.labels table).address? name = table.address? name := by
  rw [LabelTable.address?, find?_labels, Option.map_map]
  rfl

theorem define_labels (table : LabelTable) (l : Label) :
    (r.labels table).define (r.label l) = (table.define l).map r.labels := by
  have hfind : (r.labels table).find? (r.label l).name = (table.find? l.name).map r.label :=
    r.find?_labels table l.name
  unfold LabelTable.define
  split
  · next found hfound =>
    rw [hfind] at hfound
    obtain ⟨old, hold, -⟩ := Option.map_eq_some_iff.mp hfound
    split
    · rfl
    · next hnone =>
      rw [hold] at hnone
      cases hnone
  · next hnone =>
    rw [hfind] at hnone
    have hnone' := Option.map_eq_none_iff.mp hnone
    split
    · next hsome =>
      rw [hsome] at hnone'
      cases hnone'
    · rfl

/-! ## Programs -/

theorem addDirective_program (p : Program) (keyword : String) (arguments : List String) :
    (r.program p).addDirective keyword arguments =
      (p.addDirective keyword arguments).map r.program := by
  unfold Program.addDirective
  split
  · cases arguments with
    | nil => rfl
    | cons name rest =>
      show (if p.name.isSome then _ else _) = Except.map _ (if p.name.isSome then _ else _)
      split <;> rfl
  · split
    · cases arguments with
      | nil => rfl
      | cons token rest =>
        show (Literal.read token >>= _) = Except.map _ (Literal.read token >>= _)
        cases Literal.read token with
        | error fault => rfl
        | ok value =>
          show (if _ then _ else _) = Except.map _ (if _ then _ else _)
          split <;> rfl
    · split
      · have hempty : (r.program p).instructions.isEmpty = p.instructions.isEmpty := by
          simp only [program, Array.isEmpty, Array.size_map]
        rw [hempty]
        split <;> rfl
      · split <;> rfl

theorem addLabel_program (p : Program) (name : String) (number : Nat) :
    (r.program p).addLabel name (r.number number) = (p.addLabel name number).map r.program := by
  unfold Program.addLabel
  by_cases hname : name = ""
  · subst hname
    rfl
  · have hsize : (r.program p).instructions.size = p.instructions.size := Array.size_map
    have hdefine := r.define_labels p.labels ⟨name, p.instructions.size, number⟩
    rw [if_neg hname, if_neg hname, hsize]
    show ((r.labels p.labels).define (r.label ⟨name, p.instructions.size, number⟩) >>= _) =
      Except.map _ (p.labels.define ⟨name, p.instructions.size, number⟩ >>= _)
    rw [hdefine]
    cases p.labels.define ⟨name, p.instructions.size, number⟩ <;> rfl

/-- A rewritten program takes in a rewritten line as the old one takes in the old line. -/
theorem addLine_program (p : Program) (l : Line) :
    (r.program p).addLine (r.line l) = ((p.addLine l).map r.program).mapError r.error := by
  obtain ⟨number, text, content⟩ := l
  cases content with
  | directive keyword arguments =>
    show Except.mapError _ ((r.program p).addDirective keyword arguments) =
      Except.mapError r.error (Except.map r.program
        (Except.mapError _ (p.addDirective keyword arguments)))
    rw [addDirective_program]
    cases p.addDirective keyword arguments <;> rfl
  | label name =>
    show Except.mapError _ ((r.program p).addLabel name (r.number number)) =
      Except.mapError r.error (Except.map r.program (Except.mapError _ (p.addLabel name number)))
    rw [addLabel_program]
    cases p.addLabel name number <;> rfl
  | instruction body =>
    have hpush : (p.instructions.push ⟨number, body⟩).map r.pending =
        (p.instructions.map r.pending).push (r.pending ⟨number, body⟩) := Array.map_push
    show Except.ok { r.program p with
        instructions := (p.instructions.map r.pending).push (r.pending ⟨number, body⟩) } =
      Except.ok { r.program p with
        instructions := (p.instructions.push ⟨number, body⟩).map r.pending }
    rw [hpush]

theorem program_empty : r.program Program.empty = Program.empty := by
  simp [program, labels, Program.empty, LabelTable.empty]

/-- Rewritten lines are collected to the rewritten program, or refused where the old lines are. -/
theorem ofLines_map (lines : List Line) :
    Program.ofLines (lines.map r.line) =
      ((Program.ofLines lines).map r.program).mapError r.error := by
  have h := foldlM_map_of_step r.addLine_program lines Program.empty
  rw [program_empty] at h
  exact h

/-! ## Words -/

/-- What an instruction means does not depend on the lines that its labels stand on. -/
theorem read_labels (table : LabelTable) (tokens : List String) :
    Instruction.read (r.labels table) tokens = Instruction.read table tokens := by
  have haddress : Instruction.address (r.labels table) = Instruction.address table := by
    funext target
    rw [Instruction.address, Instruction.address, address?_labels]
  have hjmp : Instruction.readJmp (r.labels table) = Instruction.readJmp table := by
    funext operands
    unfold Instruction.readJmp
    rw [haddress]
  unfold Instruction.read Instruction.readOperands
  rw [hjmp]

theorem encode_labels (table : LabelTable) (width : Nat) (i : PendingInstruction) :
    i.encode (r.labels table) width = i.encode table width := by
  rw [PendingInstruction.encode, Statement.encode, read_labels]
  rfl

/-- The words of a rewritten program are those of the rewritten instructions. -/
theorem encode_program (p : Program) :
    (r.program p).encode =
      p.instructions.toList.mapM fun i => (r.pending i).encode p.labels p.sideSet := by
  have hlist : (r.program p).instructions.toList = p.instructions.toList.map r.pending :=
    Array.toList_map
  have hencode : PendingInstruction.encode (r.labels p.labels) p.sideSet =
      PendingInstruction.encode p.labels p.sideSet :=
    funext (r.encode_labels p.labels p.sideSet)
  have hprogram : (r.program p).encode = (r.program p).instructions.toList.mapM
      (PendingInstruction.encode (r.labels p.labels) p.sideSet) := (r.program p).encode_eq_mapM
  rw [hprogram, hlist, hencode, List.mapM_map]
  rfl

/-- A text whose lines are those of another text, rewritten, comes to the words of the rewritten
instructions. -/
theorem assemble_of_lines_map {text text' : String} (h : lines text' = (lines text).map r.line)
    {p : Program} (hp : Program.ofLines (lines text) = .ok p) :
    assemble text' =
      (p.instructions.toList.mapM fun i => (r.pending i).encode p.labels p.sideSet).map
        fun code => ⟨p.name, p.sideSet, code⟩ := by
  have hp' : Program.ofLines (lines text') = .ok (r.program p) := by
    rw [h, ofLines_map, hp]
    rfl
  rw [assemble_of_ofLines_ok hp', encode_program]
  rfl

end Rewriting

end Source

end PioKit
