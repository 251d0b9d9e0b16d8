import PioKit.Command.Run
import PioKit.Proofs.OutputTarget

/-!
# What a run of the command leaves behind

A run reports on standard error, and these reports depend on the verbosity and on the log setting of
the environment. All else that can be seen of a run, its outcome, is a function of the options, the
files and standard input (`outcome_runWith`). Either the words are written to the one target that the
options have or nothing is written at all: `effect_of_run`.

The runs are those on a `FileTree`, which has no links and no special files and whose paths are UTF-8. How
the arguments are read does not matter: a run has the effect of the options that its frontend finds.
-/

namespace PioKit.Command

/-- What can be seen of a run, its reports apart. -/
structure Outcome where
  /-- The number by which the end of the run is reported. -/
  code : Nat
  /-- What was written to standard output. -/
  output : List UInt8
  /-- The files after the run. -/
  tree : FileTree

/-- What can be seen of a run that ends in the given session. -/
def Outcome.ofRun (result : Exit × Session) : Outcome :=
  ⟨result.1.code, result.2.output, result.2.tree⟩

namespace Options

/-- The program text that the options name, on standard input or in a file. -/
def source (o : Options) (tree : FileTree) (input : List UInt8) : Except FileFault String := do
  let bytes ← if o.input = "-" then pure input else tree.read o.input
  match Text.Utf8.decode? bytes with
  | some cs => .ok (String.ofList cs)
  | none => .error .notText

theorem exists_read_of_source {o : Options} {tree : FileTree} {input : List UInt8} {text : String}
    (h : o.source tree input = .ok text) (hinput : o.input ≠ "-") :
    ∃ bytes, tree.read o.input = .ok bytes := by
  unfold source at h
  rw [if_neg hinput, bind_eq_ok_iff] at h
  obtain ⟨bytes, hread, -⟩ := h
  exact ⟨bytes, hread⟩

/-- How words are delivered to the place that the options name. -/
def deliver (o : Options) (tree : FileTree) (bytes : List UInt8) : Outcome :=
  if o.outputPath = standardPath then ⟨0, bytes, tree⟩
  else
    match tree.write o.outputPath bytes with
    | .error _ => ⟨1, [], tree⟩
    | .ok tree' => ⟨0, [], tree'⟩

/-- The outcome of a run with the given options. -/
def outcome (o : Options) (tree : FileTree) (input : List UInt8) : Outcome :=
  match o.source tree input with
  | .error _ => ⟨1, [], tree⟩
  | .ok text =>
    match assemble text with
    | .error _ => ⟨1, [], tree⟩
    | .ok assembly => o.deliver tree (WordFile.write o.format assembly.code)

end Options

/-! ## Reports -/

/-- The action changes nothing but standard error. -/
def OnlyReports {α : Type} (action : StateM Session α) (result : α) : Prop :=
  ∀ session : Session, ∃ errors, action.run session = (result, { session with errors })

namespace Session

theorem onlyReports_writeError (text : String) : OnlyReports (host.writeError text) () :=
  fun session => ⟨session.errors ++ text, rfl⟩

theorem onlyReports_pure {α : Type} (a : α) : OnlyReports (pure a) a :=
  fun session => ⟨session.errors, rfl⟩

theorem onlyReports_bind {α β : Type} {action : StateM Session α} {next : α → StateM Session β}
    {a : α} {b : β} (h : OnlyReports action a) (hnext : OnlyReports (next a) b) :
    OnlyReports (action >>= next) b := by
  intro session
  obtain ⟨errors, herrors⟩ := h session
  obtain ⟨errors', herrors'⟩ := hnext { session with errors }
  refine ⟨errors', ?_⟩
  rw [StateT.run_bind, herrors]
  exact herrors'

theorem onlyReports_log (threshold : Threshold) (level : Level) (message : String) :
    OnlyReports (host.log threshold level message) () := by
  unfold Host.log
  split
  · exact onlyReports_writeError _
  · exact onlyReports_pure ()

theorem onlyReports_forM {α : Type} {action : α → StateM Session Unit}
    (h : ∀ a, OnlyReports (action a) ()) (l : List α) : OnlyReports (l.forM action) () := by
  induction l with
  | nil => exact onlyReports_pure ()
  | cons a l ih => exact onlyReports_bind (h a) ih

theorem onlyReports_fail (context cause : String) :
    OnlyReports (host.fail context cause) .failure :=
  onlyReports_bind (onlyReports_writeError _) (onlyReports_pure _)

/-! ## The run -/

/-- The outcome of an action that starts on the given files and input, with nothing written yet. -/
def Yields (action : StateM Session Exit) (tree : FileTree) (input : List UInt8)
    (result : Outcome) : Prop :=
  ∀ errors, Outcome.ofRun (action.run ⟨tree, input, [], errors⟩) = result

variable {tree : FileTree} {input : List UInt8} {result : Outcome}

theorem yields_of_onlyReports {action : StateM Session Exit} {exit : Exit}
    (h : OnlyReports action exit) (tree : FileTree) (input : List UInt8) :
    Yields action tree input ⟨exit.code, [], tree⟩ := by
  intro errors
  obtain ⟨errors', herrors⟩ := h ⟨tree, input, [], errors⟩
  rw [herrors]
  rfl

theorem yields_bind {α : Type} {action : StateM Session α} {next : α → StateM Session Exit} {a : α}
    (h : OnlyReports action a) (hnext : Yields (next a) tree input result) :
    Yields (action >>= next) tree input result := by
  intro errors
  obtain ⟨errors', herrors⟩ := h ⟨tree, input, [], errors⟩
  rw [StateT.run_bind, herrors]
  exact hnext errors'

theorem run_readText (o : Options) (session : Session) :
    (host.readText o.input).run session = (o.source session.tree session.input, session) := by
  unfold Host.readText Options.source standardPath
  split <;> rfl

theorem yields_readText (o : Options) {next : Except FileFault String → StateM Session Exit}
    (h : Yields (next (o.source tree input)) tree input result) :
    Yields (host.readText o.input >>= next) tree input result := by
  intro errors
  rw [StateT.run_bind, run_readText]
  exact h errors

theorem run_writeFile (path : String) (bytes : List UInt8) (session : Session) :
    (host.writeFile path bytes).run session =
      match session.tree.write path bytes with
      | .error fault => (.error fault, session)
      | .ok tree => (.ok (), { session with tree }) := by
  show (match session.tree.write path bytes with
    | .error fault => (pure (.error fault) : StateM Session (Except FileFault Unit))
    | .ok tree => set { session with tree } >>= fun _ => pure (.ok ())) session = _
  cases session.tree.write path bytes <;> rfl

/-- The end of a run: the words are written, and the exit depends on how that went. -/
theorem yields_writeBytes (o : Options) (bytes : List UInt8)
    {next : Except FileFault Unit → StateM Session Exit}
    (hok : OnlyReports (next (.ok ())) .success)
    (herror : ∀ fault, OnlyReports (next (.error fault)) .failure) :
    Yields (host.writeBytes o.outputPath bytes >>= next) tree input (o.deliver tree bytes) := by
  intro errors
  rw [StateT.run_bind]
  unfold Host.writeBytes Options.deliver
  by_cases hpath : o.outputPath = standardPath
  · obtain ⟨errors', hnext⟩ := hok ⟨tree, input, bytes, errors⟩
    rw [if_pos hpath, if_pos hpath]
    show Outcome.ofRun ((next (.ok ())).run ⟨tree, input, bytes, errors⟩) = _
    rw [hnext]
    rfl
  · rw [if_neg hpath, if_neg hpath, run_writeFile]
    cases tree.write o.outputPath bytes with
    | error fault => exact yields_of_onlyReports (herror fault) tree input errors
    | ok tree' => exact yields_of_onlyReports hok tree' input errors

theorem yields_run (o : Options) (threshold : Threshold) (tree : FileTree) (input : List UInt8) :
    Yields (o.run host threshold) tree input (o.outcome tree input) := by
  unfold Options.run Options.outcome
  refine yields_readText o ?_
  cases o.source tree input with
  | error fault => exact yields_of_onlyReports (onlyReports_fail _ _) tree input
  | ok text =>
    have hreports := onlyReports_forM
      (fun report : Report => onlyReports_log threshold report.level report.message)
      (assembling text).run.reports
    refine yields_bind (onlyReports_log _ _ _) (yields_bind hreports ?_)
    dsimp only [assemble]
    cases (assembling text).run.result with
    | error e => exact yields_of_onlyReports (onlyReports_fail _ _) tree input
    | ok assembly =>
      refine yields_bind (onlyReports_log _ _ _) (yields_writeBytes o _ ?_ fun fault => ?_)
      · exact onlyReports_bind (onlyReports_log _ _ _) (onlyReports_pure _)
      · exact onlyReports_fail _ _

/-- What can be seen of a run does not depend on the verbosity or on the log setting. -/
theorem outcome_runWith {frontend : Frontend} {arguments : List String} {o : Options}
    (h : frontend.parse arguments = .ok o) (setting : Option String) (tree : FileTree)
    (input : List UInt8) :
    Outcome.ofRun ((start tree input).runWith frontend arguments setting) =
      o.outcome tree input := by
  unfold runWith Command.run
  rw [h]
  exact yields_run o _ tree input ""

end Session

/-! ## The effect -/

/-- The tree after a file has been written: the path reads the bytes, and all other places are as they
were. -/
structure Written (tree : FileTree) (path : String) (bytes : List UInt8) (tree' : FileTree) :
    Prop where
  read : tree'.read path = .ok bytes
  other : ∀ place, place ≠ tree.placeOf path → tree'.node? place = tree.node? place
  workingDirectory : tree'.workingDirectory = tree.workingDirectory

theorem written_of_write {tree tree' : FileTree} {path : String} {bytes : List UInt8}
    (h : tree.write path bytes = .ok tree') : Written tree path bytes tree' := by
  refine ⟨FileTree.read_of_write h, ?_, ?_⟩
  · obtain ⟨-, rfl⟩ := FileTree.write_eq_ok_iff.mp h
    exact fun place hplace => FileTree.node?_put_of_ne hplace tree _
  · obtain ⟨-, rfl⟩ := FileTree.write_eq_ok_iff.mp h
    rfl

/-- What a run with the given options does to the files and to standard output. -/
inductive Effect (o : Options) (tree : FileTree) (input : List UInt8) : Outcome → Prop
  /-- The program text cannot be read. -/
  | unread {fault : FileFault} (hsource : o.source tree input = .error fault) :
    Effect o tree input ⟨1, [], tree⟩
  /-- The program text does not assemble. -/
  | refused {text : String} {e : SourceError} (hsource : o.source tree input = .ok text)
    (hassemble : assemble text = .error e) : Effect o tree input ⟨1, [], tree⟩
  /-- The words go to standard output. -/
  | shown {text : String} {assembly : Assembly} (hsource : o.source tree input = .ok text)
    (hassemble : assemble text = .ok assembly) (htargets : o.Targets "-") :
    Effect o tree input ⟨0, WordFile.write o.format assembly.code, tree⟩
  /-- The output file cannot be created. -/
  | uncreated {text : String} {assembly : Assembly} {path : String}
    (hsource : o.source tree input = .ok text) (hassemble : assemble text = .ok assembly)
    (htargets : o.Targets path) (hpath : path ≠ "-") (hcreate : ¬ tree.CanCreate path) :
    Effect o tree input ⟨1, [], tree⟩
  /-- The words are in the output file. -/
  | written {text : String} {assembly : Assembly} {path : String} {tree' : FileTree}
    (hsource : o.source tree input = .ok text) (hassemble : assemble text = .ok assembly)
    (htargets : o.Targets path) (hpath : path ≠ "-") (hcreate : tree.CanCreate path)
    (hwritten : Written tree path (WordFile.write o.format assembly.code) tree') :
    Effect o tree input ⟨0, [], tree'⟩

theorem effect_outcome (o : Options) (tree : FileTree) (input : List UInt8) :
    Effect o tree input (o.outcome tree input) := by
  unfold Options.outcome
  cases hsource : o.source tree input with
  | error fault => exact .unread hsource
  | ok text =>
    have htargets := Options.targets_outputPath (Options.exists_read_of_source hsource)
    show Effect o tree input (match assemble text with
      | .error _ => _
      | .ok assembly => _)
    cases hassemble : assemble text with
    | error e => exact .refused hsource hassemble
    | ok assembly =>
      show Effect o tree input (o.deliver tree (WordFile.write o.format assembly.code))
      unfold Options.deliver
      by_cases hpath : o.outputPath = standardPath
      · rw [hpath] at htargets
        rw [if_pos hpath]
        exact .shown hsource hassemble htargets
      rw [if_neg hpath]
      cases hwrite : tree.write o.outputPath (WordFile.write o.format assembly.code) with
      | error fault =>
        refine .uncreated hsource hassemble htargets hpath fun hcreate => ?_
        rw [FileTree.write_eq_ok_iff.mpr ⟨hcreate, rfl⟩] at hwrite
        cases hwrite
      | ok tree' =>
        have hcreate := (FileTree.write_eq_ok_iff.mp hwrite).1
        exact .written hsource hassemble htargets hpath hcreate (written_of_write hwrite)

section Inversion

variable {o : Options} {tree : FileTree} {input : List UInt8} {result : Outcome} {text : String}
  {assembly : Assembly}

/-- The words of a program that assembles are shown if they go to standard output. -/
theorem Effect.eq_of_shown (h : Effect o tree input result) (hsource : o.source tree input = .ok text)
    (hassemble : assemble text = .ok assembly) (htargets : o.Targets "-") :
    result = ⟨0, WordFile.write o.format assembly.code, tree⟩ := by
  cases h with
  | unread hsource' => simp [hsource] at hsource'
  | refused hsource' hassemble' => simp_all
  | shown hsource' hassemble' => simp_all
  | uncreated _ _ htargets' hpath => exact absurd (htargets'.unique htargets) hpath
  | written _ _ htargets' hpath => exact absurd (htargets'.unique htargets) hpath

/-- The words of a program that assembles are written if their file can be created. -/
theorem Effect.written_of_canCreate {path : String} (h : Effect o tree input result)
    (hsource : o.source tree input = .ok text) (hassemble : assemble text = .ok assembly)
    (htargets : o.Targets path) (hpath : path ≠ "-") (hcreate : tree.CanCreate path) :
    result.code = 0 ∧ result.output = [] ∧
      Written tree path (WordFile.write o.format assembly.code) result.tree := by
  cases h with
  | unread hsource' => simp [hsource] at hsource'
  | refused hsource' hassemble' => simp_all
  | shown _ _ htargets' => exact absurd (htargets.unique htargets') hpath
  | uncreated _ _ htargets' _ hcreate' =>
    exact absurd (htargets'.unique htargets ▸ hcreate) hcreate'
  | written hsource' hassemble' htargets' _ _ hwritten =>
    obtain rfl := htargets'.unique htargets
    simp_all

end Inversion

/-- A run touches nothing but its output, and verbosity and log setting change only its reports. This is
so for any frontend, on a tree of plain files and directories and with paths in UTF-8. -/
theorem effect_of_run {frontend : Frontend} {arguments : List String} {o : Options}
    (h : frontend.parse arguments = .ok o) (setting : Option String) (tree : FileTree)
    (input : List UInt8) :
    Effect o tree input (.ofRun ((Session.start tree input).runWith frontend arguments setting)) ∧
      ∀ (frontend' : Frontend) (arguments' : List String) (verbose : Bool) (setting' : Option String),
        frontend'.parse arguments' = .ok { o with verbose } →
        Outcome.ofRun ((Session.start tree input).runWith frontend' arguments' setting') =
          Outcome.ofRun ((Session.start tree input).runWith frontend arguments setting) := by
  have hrun := Session.outcome_runWith h setting tree input
  refine ⟨?_, fun frontend' arguments' verbose setting' h' => ?_⟩
  · rw [hrun]
    exact effect_outcome o tree input
  · rw [hrun, Session.outcome_runWith h' setting' tree input]
    rfl

/-- A text in the working directory. By default the words go beside it, with and without `-v`; `-o` sends
them to another file or, with a dash, to standard output. -/
theorem effect_of_run_hex :
    let tree : FileTree := ⟨[(["w"], .directory), (["w", "a.pio"], .file [110, 111, 112])], ["w"]⟩
    let hex := Text.Utf8.encode ":0200000042A01C\n:00000001FF\n".toList
    let outcome (arguments : List String) (setting : Option String) : Outcome :=
      .ofRun ((Session.start tree []).run arguments setting)
    let beside := outcome ["-fhex", "a.pio"] none
    let given := outcome ["-o", "../b", "-fhex", "a.pio"] none
    (beside.code = 0 ∧ beside.output = [] ∧ beside.tree.read "a.hex" = .ok hex ∧
      ∀ place, place ≠ ["w", "a.hex"] → beside.tree.node? place = tree.node? place) ∧
    (given.code = 0 ∧ given.output = [] ∧ given.tree.read "../b" = .ok hex ∧
      ∀ place, place ≠ ["b"] → given.tree.node? place = tree.node? place) ∧
    outcome ["-o", "-", "-fhex", "a.pio"] none = ⟨0, hex, tree⟩ ∧
    outcome ["-v", "-fhex", "a.pio"] (some "trace") = beside := by
  intro tree hex outcome beside given
  have hassemble : assemble "nop" = .ok ⟨none, 0, [0xA042]⟩ := by decide +kernel
  have hwords : WordFile.write .hex [0xA042] = hex := by decide +kernel
  have hread : Options.source ⟨"a.pio", none, .hex, false⟩ tree [] = .ok "nop" := by decide +kernel
  have hsource (output : Option String) :
      Options.source ⟨"a.pio", output, .hex, false⟩ tree [] = .ok "nop" := hread
  have hcreate : tree.CanCreate "a.hex" ∧ tree.CanCreate "../b" :=
    ⟨⟨["w"], "a.hex", by decide, by decide, by decide, by decide⟩,
      ⟨[], "b", by decide, by decide, by decide, by decide⟩⟩
  have hname : Renames "hex".toList "a.pio".toList "a.hex".toList :=
    @Renames.replaced _ ['a'] ['p', 'i', 'o'] (by decide) (by decide) (by decide)
  have hsplits : Location.Splits [] "a.pio".toList := ⟨by decide, by decide, by simp⟩
  have hbeside : Options.Targets ⟨"a.pio", none, .hex, false⟩ "a.hex" :=
    .beside rfl (by decide) rfl hsplits (by decide) (by decide) (by decide) hname
  have hdefault : Frontend.standard.parse ["-fhex", "a.pio"] =
      .ok ⟨"a.pio", none, .hex, false⟩ := by rfl
  have hfile : Frontend.standard.parse ["-o", "../b", "-fhex", "a.pio"] =
      .ok ⟨"a.pio", some "../b", .hex, false⟩ := by rfl
  have hdash : Frontend.standard.parse ["-o", "-", "-fhex", "a.pio"] =
      .ok ⟨"a.pio", some "-", .hex, false⟩ := by rfl
  have hverbose : Frontend.standard.parse ["-v", "-fhex", "a.pio"] =
      .ok ⟨"a.pio", none, .hex, true⟩ := by rfl
  have hrun := effect_of_run hdefault none tree []
  obtain ⟨hcode, houtput, hwritten⟩ :=
    hrun.1.written_of_canCreate (hsource _) hassemble hbeside (by decide) hcreate.1
  obtain ⟨hcode', houtput', hwritten'⟩ := (effect_of_run hfile none tree []).1.written_of_canCreate
    (hsource _) hassemble (.given rfl) (by decide) hcreate.2
  have hshown := (effect_of_run hdash none tree []).1.eq_of_shown (hsource _) hassemble (.given rfl)
  rw [hwords] at hwritten hwritten' hshown
  exact ⟨⟨hcode, houtput, hwritten.read, hwritten.other⟩,
    ⟨hcode', houtput', hwritten'.read, hwritten'.other⟩, hshown, hrun.2 _ _ true _ hverbose⟩

end PioKit.Command
