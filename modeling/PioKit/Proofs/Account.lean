import PioKit.Proofs.Declarations
import PioKit.Proofs.FirstFault
import PioKit.Proofs.RawLines
import PioKit.Proofs.ReportText

/-!
# The journal tells what happened

The journal of a text beside the outcome of its assembly. `Account text reports r` says what is reported
if the assembly comes to `r`: every line; then the program and its labels, unless a line is refused; then
every instruction with its word, up to the first one that cannot be encoded. The labels come in an order
that is left open.

Each instruction that is encoded adds its report and its word (`Encodes.cons`), so the reports of a run
over all instructions and its words go together: `encodes_mapM`.
-/

namespace PioKit

open Source (Line)

/-- The labels are those that the lines define, each of them once. -/
def ListsLabels (lines : List Line) (labels : List Label) : Prop :=
  labels.Nodup ∧ ∀ label, label ∈ labels ↔ Source.Defines lines label

/-- The words are those of the instructions. -/
def EncodeAs (labels : LabelTable) (width : Nat) (instructions : List PendingInstruction)
    (words : List Word) : Prop :=
  List.Forall₂ (fun i word => i.encode labels width = .ok word) instructions words

/-- The reports fit the outcome of the assembly. -/
inductive Account (text : String) : List Report → Except SourceError Assembly → Prop where
  /-- The lines make no program: nothing but the lines is reported. -/
  | refused {read : List Report} {e : SourceError}
      (hread : List.Forall₂ Report.TellsLine (Source.lines text) read)
      (hlines : Program.ofLines (Source.lines text) = .error e) : Account text read (.error e)
  /-- The instruction `i` cannot be encoded: the instructions before it are reported. -/
  | stopped {read : List Report} {program : Report} {p : Program} {labels : List Label}
      {before after : List PendingInstruction} {i : PendingInstruction} {words : List Word}
      {e : SourceError} (hread : List.Forall₂ Report.TellsLine (Source.lines text) read)
      (hp : Program.ofLines (Source.lines text) = .ok p)
      (hlabels : ListsLabels (Source.lines text) labels)
      (hprogram : program.TellsProgram p (Source.pending (Source.lines text)).length labels.length)
      (hsplit : Source.pending (Source.lines text) = before ++ i :: after)
      (hbefore : EncodeAs p.labels p.sideSet before words)
      (hi : i.encode p.labels p.sideSet = .error e) :
      Account text
        (read ++ program :: (labels.map .ofLabel ++ List.zipWith .ofWord before words)) (.error e)
  /-- All instructions can be encoded and are reported with the words of the result. -/
  | finished {read : List Report} {program : Report} {p : Program} {labels : List Label}
      {words : List Word} (hread : List.Forall₂ Report.TellsLine (Source.lines text) read)
      (hp : Program.ofLines (Source.lines text) = .ok p)
      (hlabels : ListsLabels (Source.lines text) labels)
      (hprogram : program.TellsProgram p (Source.pending (Source.lines text)).length labels.length)
      (hall : EncodeAs p.labels p.sideSet (Source.pending (Source.lines text)) words) :
      Account text
        (read ++ program :: (labels.map .ofLabel ++
          List.zipWith .ofWord (Source.pending (Source.lines text)) words))
        (.ok ⟨p.name, p.sideSet, words⟩)

/-! ## What follows from an account -/

namespace Report

theorem stage_of_tellsLine {lines : List Line} {read : List Report}
    (h : List.Forall₂ TellsLine lines read) : ∀ report ∈ read, report.stage = .reading := by
  induction h with
  | nil => exact List.forall_mem_nil _
  | cons hline _ ih =>
    obtain ⟨shown, -, rfl⟩ := hline
    exact List.forall_mem_cons.mpr ⟨rfl, ih⟩

/-- Only the reports of encoded instructions have a word. -/
theorem filterMap_word?_eq_nil {reports : List Report}
    (h : ∀ report ∈ reports, report.stage ≠ .encoding) : reports.filterMap word? = [] := by
  rw [List.filterMap_eq_nil_iff]
  intro report hreport
  rw [word?, if_neg (h report hreport)]

theorem filterMap_word?_ofWord {table : LabelTable} {width : Nat}
    {instructions : List PendingInstruction} {words : List Word}
    (h : EncodeAs table width instructions words) :
    (List.zipWith ofWord instructions words).filterMap word? = words := by
  induction h with
  | nil => rfl
  | cons _ _ ih =>
    rw [List.zipWith_cons_cons, List.filterMap_cons_some (word?_ofWord _ _), ih]

end Report

namespace Account

variable {text : String} {found : List Report} {r : Except SourceError Assembly}

/-- The words that are reported of a finished assembly are its code. -/
theorem filterMap_word? {a : Assembly} (h : Account text found (.ok a)) :
    found.filterMap Report.word? = a.code := by
  cases h with
  | @finished read program p labels words hread _ _ hprogram hall =>
    have hlines : ∀ report ∈ read, report.stage ≠ .encoding := by
      intro report hreport
      rw [Report.stage_of_tellsLine hread report hreport]
      nofun
    have hlabels : ∀ report ∈ labels.map Report.ofLabel, report.stage ≠ .encoding := by
      rw [List.forall_mem_map]
      exact fun label _ => nofun
    obtain ⟨shown, -, rfl⟩ := hprogram
    rw [List.filterMap_append, Report.filterMap_word?_eq_nil hlines, List.nil_append,
      List.filterMap_cons_none rfl, List.filterMap_append, Report.filterMap_word?_eq_nil hlabels,
      List.nil_append, Report.filterMap_word?_ofWord hall]

/-- Only lines are reported exactly if the lines make no program. -/
theorem forall_reading_iff (h : Account text found r) :
    (∀ report ∈ found, report.stage = .reading) ↔
      ∃ e, Program.ofLines (Source.lines text) = .error e := by
  have hcollected : ∀ {p : Program} {program : Report} {instructions labels : Nat}
      (read rest : List Report), Program.ofLines (Source.lines text) = .ok p →
      program.TellsProgram p instructions labels →
      ((∀ report ∈ read ++ program :: rest, report.stage = .reading) ↔
        ∃ e, Program.ofLines (Source.lines text) = .error e) := by
    rintro p program instructions labels read rest hp ⟨shown, -, rfl⟩
    constructor
    · intro hall
      have hstage := hall _ (List.mem_append_right _ List.mem_cons_self)
      cases hstage
    · rintro ⟨e, he⟩
      rw [hp] at he
      cases he
  cases h with
  | refused hread hlines => exact ⟨fun _ => ⟨_, hlines⟩, fun _ => Report.stage_of_tellsLine hread⟩
  | stopped _ hp _ hprogram => exact hcollected _ _ hp hprogram
  | finished _ hp _ hprogram => exact hcollected _ _ hp hprogram

end Account

/-! ## Encoding the instructions -/

/-- A run over the instructions: its reports and what it comes to. -/
inductive Encodes (labels : LabelTable) (width : Nat) :
    List PendingInstruction → Logged (Except SourceError (List Word)) → Prop where
  | finished {instructions : List PendingInstruction} {words : List Word}
      (hall : EncodeAs labels width instructions words) :
      Encodes labels width instructions ⟨List.zipWith .ofWord instructions words, .ok words⟩
  | stopped {before after : List PendingInstruction} {i : PendingInstruction} {words : List Word}
      {e : SourceError} (hbefore : EncodeAs labels width before words)
      (hi : i.encode labels width = .error e) :
      Encodes labels width (before ++ i :: after) ⟨List.zipWith .ofWord before words, .error e⟩

variable {labels : LabelTable} {width : Nat}

/-- An instruction that can be encoded comes before the run over the others. -/
theorem Encodes.cons {i : PendingInstruction} {word : Word} {rest : List PendingInstruction}
    {run : Logged (Except SourceError (List Word))} (hi : i.encode labels width = .ok word)
    (h : Encodes labels width rest run) :
    Encodes labels width (i :: rest) ⟨.ofWord i word :: run.reports, run.result.map (word :: ·)⟩ := by
  cases h with
  | finished hall => exact .finished (.cons hi hall)
  | @stopped before after j words e hbefore hj =>
    have hfront : EncodeAs labels width (i :: before) (word :: words) := .cons hi hbefore
    exact .stopped hfront hj

theorem encodes_mapM (instructions : List PendingInstruction) :
    Encodes labels width instructions
      (instructions.mapM (PendingInstruction.encoding labels width)).run := by
  induction instructions with
  | nil => exact .finished .nil
  | cons i rest ih =>
    rw [List.mapM_cons, ExceptT.run_bind]
    cases hi : i.encode labels width with
    | error e =>
      have hfront : EncodeAs labels width [] [] := .nil
      rw [PendingInstruction.run_encoding_of_error hi]
      exact .stopped hfront hi
    | ok word =>
      have hrun : (rest.mapM (PendingInstruction.encoding labels width) >>= fun words =>
          pure (word :: words)).run =
            Except.map (word :: ·) <$> (rest.mapM (PendingInstruction.encoding labels width)).run := by
        rw [bind_pure_comp, ExceptT.run_map]
      rw [PendingInstruction.run_encoding hi]
      have hcons := ih.cons hi
      rw [← Logged.reports_map (Except.map (word :: ·)), ← Logged.result_map (Except.map _),
        ← hrun] at hcons
      exact hcons

/-! ## The account that the journal gives -/

/-- The program is reported, and its labels in some order, each of them once. -/
theorem exists_reports_announce {lines : List Line} {p : Program}
    (hp : Program.ofLines lines = .ok p) :
    ∃ program labels, ListsLabels lines labels ∧
      Report.TellsProgram p (Source.pending lines).length labels.length program ∧
      p.announce.reports = program :: labels.map .ofLabel := by
  obtain ⟨-, hdescribes⟩ := Program.wellFormed_and_describes_of_ofLines hp
  let le : Label → Label → Bool := fun a b => a.describe ≤ b.describe
  let sorted := p.labels.entries.mergeSort le
  have hperm : sorted.Perm p.labels.entries := List.mergeSort_perm _ _
  have hsorted : sorted.map Label.describe = (p.labels.entries.map Label.describe).mergeSort :=
    List.map_mergeSort fun _ _ _ _ => rfl
  have hinstructions : p.instructions.size = (Source.pending lines).length := by
    rw [← hdescribes.instructions, Array.length_toList]
  have hsize : p.labels.size = sorted.length := hperm.length_eq.symm
  have hlists : ListsLabels lines sorted := by
    refine ⟨hperm.nodup_iff.mpr p.labels.nodup_entries, fun label => ?_⟩
    rw [hperm.mem_iff, LabelTable.mem_entries_iff, hdescribes.label]
    exact and_iff_right rfl
  refine ⟨_, sorted, hlists, ⟨_, showsName_describeName p.name, rfl⟩, ?_⟩
  rw [Program.announce, Logged.reports_bind, Logged.reports_forM_report, ← hsorted, hinstructions, hsize,
    List.map_map]
  rfl

/-- What is reported of a program fits the run over its instructions. -/
theorem account_of_encodes {text : String} {read : List Report} {program : Report} {p : Program}
    {found : List Label} {run : Logged (Except SourceError (List Word))}
    (hread : List.Forall₂ Report.TellsLine (Source.lines text) read)
    (hp : Program.ofLines (Source.lines text) = .ok p)
    (hfound : ListsLabels (Source.lines text) found)
    (hprogram : program.TellsProgram p (Source.pending (Source.lines text)).length found.length)
    (hrun : Encodes p.labels p.sideSet (Source.pending (Source.lines text)) run) :
    Account text (read ++ program :: (found.map .ofLabel ++ run.reports))
      (run.result.map fun code => ⟨p.name, p.sideSet, code⟩) := by
  generalize hpending : Source.pending (Source.lines text) = pending at hrun
  cases hrun with
  | finished hall =>
    subst hpending
    have haccount := Account.finished hread hp hfound hprogram hall
    exact haccount
  | stopped hbefore hi => exact .stopped hread hp hfound hprogram hpending hbefore hi

theorem account_journal (text : String) : Account text (journal text) (assemble text) := by
  have hread := Source.tellsLine_reading text
  cases hp : Program.ofLines (Source.lines text) with
  | error e =>
    rw [journal, assemble, run_assembling_of_error hp]
    exact .refused hread hp
  | ok p =>
    obtain ⟨program, found, hfound, hprogram, hannounce⟩ := exists_reports_announce hp
    rw [journal, assemble, run_assembling_of_ok hp, hannounce, List.cons_append]
    apply account_of_encodes hread hp hfound hprogram
    have hinstructions : Source.pending (Source.lines text) = p.instructions.toList :=
      (Program.instructions_of_ofLines hp).symm
    rw [hinstructions]
    exact encodes_mapM _

/-- The journal is an account of the assembly: the lines come in the order of their numbers, the words of
a finished assembly are its code, and only lines are reported exactly if they make no program. -/
theorem account_reports (text : String) :
    ((Source.lines text).Pairwise fun earlier later => earlier.number < later.number) ∧
    Account text (journal text) (assemble text) ∧
    (∀ a, assemble text = .ok a → (journal text).filterMap Report.word? = a.code) ∧
    ((∀ report ∈ journal text, report.stage = .reading) ↔
      ∃ e, Program.ofLines (Source.lines text) = .error e) := by
  have haccount := account_journal text
  refine ⟨?_, haccount, ?_, haccount.forall_reading_iff⟩
  · rw [Source.lines_eq_linesFrom]
    exact Source.pairwise_number_linesFrom 1 _
  · intro a ha
    rw [ha] at haccount
    exact haccount.filterMap_word?

/-- A program with a label that can be assembled, one that stops at its second instruction, and one of
which only the lines are reported. -/
theorem account_reports_loop :
    let loop := ".side_set 1\nloop:\n nop side 1 ; high\n jmp loop"
    journal loop =
        [⟨.trace, .reading, "line 1: Directive \x7b keyword: \".side_set\", args: [\"1\"] \x7d"⟩,
          ⟨.trace, .reading, "line 2: Label(\"loop\")"⟩,
          ⟨.trace, .reading, "line 3: Instruction(\"nop side 1\")"⟩,
          ⟨.trace, .reading, "line 4: Instruction(\"jmp loop\")"⟩,
          ⟨.debug, .collecting, "program None: 2 instructions, 1 labels, side_set 1"⟩,
          ⟨.trace, .collecting, "label loop -> 0 (line 2)"⟩,
          ⟨.debug, .encoding, "line 3: nop side 1               0xb042"⟩,
          ⟨.debug, .encoding, "line 4: jmp loop                 0x0000"⟩] ∧
      (journal loop).filterMap Report.word? = [0xB042, 0x0000] ∧
      journal ".program p\nnop\nbad" =
        [⟨.trace, .reading, "line 1: Directive \x7b keyword: \".program\", args: [\"p\"] \x7d"⟩,
          ⟨.trace, .reading, "line 2: Instruction(\"nop\")"⟩,
          ⟨.trace, .reading, "line 3: Instruction(\"bad\")"⟩,
          ⟨.debug, .collecting, "program Some(\"p\"): 2 instructions, 0 labels, side_set 0"⟩,
          ⟨.debug, .encoding, "line 2: nop                      0xa042"⟩] ∧
      ∀ report ∈ journal "nop\nloop:\nloop:", report.stage = .reading := by
  intro loop
  have hcode : assemble loop = .ok ⟨none, 1, [0xB042, 0x0000]⟩ := by decide +kernel
  have hlines : Program.ofLines (Source.lines "nop\nloop:\nloop:") =
      .error ⟨.duplicateLabel "loop", 3, "loop:"⟩ := rfl
  refine ⟨by decide +kernel, (account_reports _).2.2.1 _ hcode, by decide +kernel,
    (account_reports _).2.2.2.mpr ⟨_, hlines⟩⟩

end PioKit
