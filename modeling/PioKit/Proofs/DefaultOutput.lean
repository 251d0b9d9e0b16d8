import PioKit.Proofs.CommandEffect

/-!
# When the default output is the source

Without `-o` the words go to the directory of the source, under its name with the extension of the
format. Two names in one directory lead to one place only if they are the same name
(`placeOf_append_eq_iff`), and a name keeps its extension only if it already has the new one
(`renameExtension_eq_self_iff`). So a run leaves the source as it was unless the source is named like a
word file of the format (`HasExtension`); the words then replace it.
-/

namespace PioKit

namespace FileTree

open Location (Splits)

variable {tree : FileTree} {directory name name' : List Char}

theorem placeOf_append (tree : FileTree) (h : Splits directory name) :
    tree.placeOf (String.ofList (directory ++ name)) =
      (tree.placeOf (String.ofList directory)).follow [String.ofList name] := by
  rw [placeOf, placeOf, Location.namesOf_append h, follow_append, origin, origin,
    Location.beginsWithSlash_append h]

/-- A name that means no directory by its form leads to a place of its own. -/
theorem placeOf_append_eq_iff (h : Splits directory name) (h' : Splits directory name')
    (hdot : name ≠ ['.']) (hdots : name ≠ ['.', '.']) :
    tree.placeOf (String.ofList (directory ++ name')) =
      tree.placeOf (String.ofList (directory ++ name)) ↔ name' = name := by
  refine ⟨fun heq => ?_, fun heq => by rw [heq]⟩
  rw [placeOf_append tree h, placeOf_append tree h'] at heq
  generalize tree.placeOf (String.ofList directory) = place at heq
  have hfollow : place.follow [String.ofList name] = place ++ [String.ofList name] := by
    have hdot' : String.ofList name ≠ "." := fun e => hdot (String.ofList_injective e)
    have hdots' : String.ofList name ≠ ".." := fun e => hdots (String.ofList_injective e)
    simp [Location.follow, hdot', hdots']
  rw [hfollow] at heq
  -- `.` and `..` lead to a shorter place, so the other name is a plain one too.
  have hlength := congrArg List.length heq
  by_cases hname' : String.ofList name' = "." ∨ String.ofList name' = ".."
  · rcases hname' with hname' | hname' <;> simp [Location.follow, hname'] at hlength
  · rw [not_or] at hname'
    have hfollow' : place.follow [String.ofList name'] = place ++ [String.ofList name'] := by
      simp [Location.follow, hname'.1, hname'.2]
    rw [hfollow', List.append_cancel_left_eq, List.singleton_inj] at heq
    exact String.ofList_injective heq

end FileTree

namespace Command

open Location (Splits)

/-! ## The extension of a name -/

section Extension

variable {name extension : List Char}

/-- A name keeps its extension if that is the new one. -/
theorem renameExtension_eq_self_iff (hextension : '.' ∉ extension) (hdots : name ≠ ['.', '.']) :
    renameExtension name extension = name ↔
      ∃ stem, stem ≠ [] ∧ stem ≠ ['.'] ∧ name = stem ++ '.' :: extension := by
  constructor
  · intro h
    by_cases hdot : '.' ∈ name
    · obtain ⟨stem, ending, hending, rfl⟩ := exists_last_dot hdot
      rw [renameExtension_append hending] at h
      by_cases hnil : stem = []
      · have hlength := congrArg List.length h
        simp [hnil] at hlength
      by_cases hone : stem = ['.']
      · rw [if_neg hnil, if_pos hone] at h
        exact absurd h.symm hdots
      rw [if_neg hnil, if_neg hone] at h
      exact ⟨stem, hnil, hone, h.symm⟩
    · rw [renameExtension_of_not_mem hdot] at h
      have hlength := congrArg List.length h
      simp at hlength
  · rintro ⟨stem, hnil, hone, rfl⟩
    rw [renameExtension_append hextension, if_neg hnil, if_neg hone]

theorem renameExtension_ne_nil (name extension : List Char) :
    renameExtension name extension ≠ [] := by
  unfold renameExtension
  dsimp only
  split
  · simp
  · split <;> simp

theorem slash_not_mem_renameExtension (hname : '/' ∉ name) (hextension : '/' ∉ extension) :
    '/' ∉ renameExtension name extension := by
  have hstem (n : Nat) : '/' ∉ name.take n := fun hmem => hname (List.mem_of_mem_take hmem)
  unfold renameExtension
  dsimp only
  split
  · simp [hname, hextension]
  · split
    · decide
    · simp [hstem, hextension]

end Extension

/-- The last name of the path has the extension. A name has none if it is `.` or empty in front of
the last dot. -/
def HasExtension (path extension : String) : Prop :=
  ∃ directory stem, Splits directory (stem ++ '.' :: extension.toList) ∧
    stem ≠ [] ∧ stem ≠ ['.'] ∧ path = String.ofList (directory ++ (stem ++ '.' :: extension.toList))

theorem plain_extension (format : WordFile.Format) :
    '.' ∉ format.extension.toList ∧ '/' ∉ format.extension.toList := by
  cases format <;> decide

/-- The default output is at the place of a file that can be read exactly if the file has the
extension of the format, and then it has the same path. -/
theorem withExtension_of_read {tree : FileTree} {path : String} {bytes : List UInt8}
    (h : tree.read path = .ok bytes) (format : WordFile.Format) :
    (tree.placeOf (withExtension path format.extension) = tree.placeOf path ↔
      HasExtension path format.extension) ∧
      (HasExtension path format.extension → withExtension path format.extension = path) := by
  obtain ⟨directory, name, rfl, hsplits, hdot, hdots⟩ := FileTree.exists_splits_of_read h
  obtain ⟨hplain, hslash⟩ := plain_extension format
  have hsplits' : Splits directory (renameExtension name format.extension.toList) :=
    ⟨slash_not_mem_renameExtension hsplits.slash hslash, renameExtension_ne_nil _ _,
      hsplits.closed⟩
  have hself : HasExtension (String.ofList (directory ++ name)) format.extension ↔
      renameExtension name format.extension.toList = name := by
    rw [renameExtension_eq_self_iff hplain hdots]
    constructor
    · rintro ⟨directory', stem, hsplits'', hnil, hone, heq⟩
      exact ⟨stem, hnil, hone, hsplits.name_eq hsplits'' (String.ofList_injective heq)⟩
    · rintro ⟨stem, hnil, hone, rfl⟩
      exact ⟨directory, stem, hsplits, hnil, hone, rfl⟩
  rw [withExtension_append hsplits hdot hdots]
  refine ⟨?_, fun hextension => by rw [hself.mp hextension]⟩
  rw [FileTree.placeOf_append_eq_iff hsplits hsplits' hdot hdots, hself]

/-! ## The source after a run -/

namespace Options

variable {o : Options} {tree : FileTree} {input : List UInt8} {assembly : Assembly}

/-- The program text that the options name can be read and assembles. -/
def Assembles (o : Options) (tree : FileTree) (input : List UInt8) (assembly : Assembly) : Prop :=
  ∃ text, o.source tree input = .ok text ∧ assemble text = .ok assembly

theorem Assembles.outcome (h : o.Assembles tree input assembly) :
    o.outcome tree input = o.deliver tree (WordFile.write o.format assembly.code) := by
  obtain ⟨text, hsource, hassemble⟩ := h
  simp only [Options.outcome, hsource, hassemble]

theorem tree_outcome_of_not_assembles (h : ∀ assembly, ¬ o.Assembles tree input assembly) :
    (o.outcome tree input).tree = tree := by
  have heffect := effect_outcome o tree input
  generalize o.outcome tree input = result at heffect
  cases heffect with
  | unread | refused | uncreated | shown => rfl
  | written hsource hassemble => exact absurd ⟨_, hsource, hassemble⟩ (h _)

theorem Assembles.exists_read (h : o.Assembles tree input assembly) (hinput : o.input ≠ standardPath) :
    ∃ bytes, tree.read o.input = .ok bytes := by
  obtain ⟨text, hsource, -⟩ := h
  exact exists_read_of_source hsource hinput

/-- Words that go to another place leave a file as it was. -/
theorem read_deliver_of_ne {path : String} {bytes : List UInt8} (words : List UInt8)
    (hread : tree.read path = .ok bytes) (hne : tree.placeOf o.outputPath ≠ tree.placeOf path) :
    (o.deliver tree words).tree.read path = .ok bytes := by
  unfold deliver
  split
  · exact hread
  · split
    · exact hread
    · next tree' hwrite => exact FileTree.read_of_write_of_ne hwrite hne.symm hread

/-- Words that go to a file that can be read replace it. -/
theorem deliver_of_read {bytes : List UInt8} (words : List UInt8)
    (hread : tree.read o.outputPath = .ok bytes) (hpath : o.outputPath ≠ standardPath) :
    (o.deliver tree words).code = 0 ∧
      (o.deliver tree words).tree.read o.outputPath = .ok words := by
  obtain ⟨here, name, hlocate, hslash, hlimit, hfile⟩ := FileTree.read_eq_ok_iff.mp hread
  have hnode : tree.node? (here ++ [name]) ≠ some .directory := by simp [hfile]
  have hwrite : tree.write o.outputPath words =
      .ok (tree.put (tree.placeOf o.outputPath) (.file words)) :=
    FileTree.write_eq_ok_iff.mpr ⟨⟨here, name, hlocate, hslash, hlimit, hnode⟩, rfl⟩
  unfold deliver
  rw [if_neg hpath, hwrite]
  exact ⟨rfl, FileTree.read_of_write hwrite⟩

end Options

/-- The source after a run without `-o`. -/
structure SourceAfter (o : Options) (tree : FileTree) (input : List UInt8) (result : Outcome) :
    Prop where
  /-- It is as it was, or the program assembles and its file has the extension of the output. -/
  kept : ¬ (HasExtension o.input o.format.extension ∧ ∃ assembly, o.Assembles tree input assembly) →
    result.tree.read o.input = tree.read o.input
  /-- The output of a program that assembles goes to its source exactly in this case. -/
  place : ∀ assembly, o.Assembles tree input assembly →
    (tree.placeOf o.outputPath = tree.placeOf o.input ↔ HasExtension o.input o.format.extension)
  /-- The run then succeeds, and the words stand where the program stood. -/
  replaced : ∀ assembly, o.Assembles tree input assembly →
    HasExtension o.input o.format.extension →
      result.code = 0 ∧ result.tree.read o.input = .ok (WordFile.write o.format assembly.code)

/-- A run without `-o` leaves its source as it was unless that is named like the output. This is so for any
frontend, on a tree of plain files and directories and with paths in UTF-8. -/
theorem sourceAfter_of_run {frontend : Frontend} {arguments : List String} {o : Options}
    (h : frontend.parse arguments = .ok o) (houtput : o.output = none)
    (hinput : o.input ≠ standardPath) (setting : Option String) (tree : FileTree)
    (input : List UInt8) :
    SourceAfter o tree input
      (.ofRun ((Session.start tree input).runWith frontend arguments setting)) := by
  rw [Session.outcome_runWith h setting tree input]
  have hpath := Options.outputPath_of_default houtput hinput
  refine ⟨fun hnot => ?_, fun assembly hassembles => ?_, fun assembly hassembles hextension => ?_⟩
  · by_cases hassembles : ∃ assembly, o.Assembles tree input assembly
    · obtain ⟨assembly, hassembles⟩ := hassembles
      obtain ⟨bytes, hread⟩ := hassembles.exists_read hinput
      have hne : tree.placeOf o.outputPath ≠ tree.placeOf o.input := by
        intro heq
        rw [hpath, (withExtension_of_read hread o.format).1] at heq
        exact hnot ⟨heq, assembly, hassembles⟩
      rw [hassembles.outcome, hread]
      exact Options.read_deliver_of_ne _ hread hne
    · rw [Options.tree_outcome_of_not_assembles (not_exists.mp hassembles)]
  · obtain ⟨bytes, hread⟩ := hassembles.exists_read hinput
    rw [hpath]
    exact (withExtension_of_read hread o.format).1
  · obtain ⟨bytes, hread⟩ := hassembles.exists_read hinput
    have hself : o.outputPath = o.input :=
      hpath.trans ((withExtension_of_read hread o.format).2 hextension)
    rw [hassembles.outcome]
    rw [← hself] at hread hinput ⊢
    exact Options.deliver_of_read _ hread hinput

/-- The same text in two files: the run on `./p.hex` replaces it, the run on `p.pio` does not. -/
theorem sourceAfter_of_run_hex :
    let tree : FileTree := ⟨[(["w"], .directory), (["w", "p.hex"], .file [110, 111, 112]),
      (["w", "p.pio"], .file [110, 111, 112])], ["w"]⟩
    let o : Options := ⟨"./p.hex", none, .hex, true⟩
    let o' : Options := ⟨"p.pio", none, .hex, false⟩
    let result := Outcome.ofRun ((Session.start tree []).run ["-v", "-fhex", "./p.hex"] none)
    let result' := Outcome.ofRun ((Session.start tree []).run ["-fhex", "p.pio"] none)
    Options.parse ["-v", "-fhex", "./p.hex"] = .ok o ∧ Options.parse ["-fhex", "p.pio"] = .ok o' ∧
      HasExtension o.input o.format.extension ∧ o.Assembles tree [] ⟨none, 0, [0xA042]⟩ ∧
      result.code = 0 ∧ result.tree.read o.input = .ok (WordFile.write .hex [0xA042]) ∧
      ¬ HasExtension o'.input o'.format.extension ∧ o'.Assembles tree [] ⟨none, 0, [0xA042]⟩ ∧
      result'.tree.read o'.input = .ok [110, 111, 112] := by
  intro tree o o' result result'
  have h : Frontend.standard.parse ["-v", "-fhex", "./p.hex"] = .ok o := by rfl
  have h' : Frontend.standard.parse ["-fhex", "p.pio"] = .ok o' := by rfl
  have hassemble : assemble "nop" = .ok ⟨none, 0, [0xA042]⟩ := by decide +kernel
  have hassembles : o.Assembles tree [] ⟨none, 0, [0xA042]⟩ := ⟨"nop", by decide +kernel, hassemble⟩
  have hassembles' : o'.Assembles tree [] ⟨none, 0, [0xA042]⟩ :=
    ⟨"nop", by decide +kernel, hassemble⟩
  have hclosed : ∀ c ∈ ['.', '/'].getLast?, c = '/' :=
    fun c hc => (Option.mem_some_iff.mp hc).symm
  have hextension : HasExtension o.input o.format.extension :=
    ⟨['.', '/'], ['p'], ⟨by decide, by decide, hclosed⟩, by decide, by decide, by decide⟩
  have hsource := sourceAfter_of_run h rfl (by decide) none tree []
  have hsource' := sourceAfter_of_run h' rfl (by decide) none tree []
  have hother : ¬ HasExtension o'.input o'.format.extension :=
    (hsource'.place _ hassembles').not.mp (by decide)
  have hread : tree.read o'.input = .ok [110, 111, 112] := by decide
  obtain ⟨hcode, hwords⟩ := hsource.replaced _ hassembles hextension
  exact ⟨h, h', hextension, hassembles, hcode, hwords, hother, hassembles',
    (hsource'.kept fun hboth => hother hboth.1).trans hread⟩

/-- A program in a file that is named like a word file is lost in a run that succeeds. -/
theorem run_replaces_source :
    let tree : FileTree :=
      ⟨[(["w"], .directory), (["w", "p.bin"], .file [110, 111, 112, 10])], ["w"]⟩
    let o : Options := ⟨"p.bin", none, .binary, false⟩
    let result := Outcome.ofRun ((Session.start tree []).run ["p.bin"] none)
    Options.parse ["p.bin"] = .ok o ∧ o.input ≠ standardPath ∧ o.outputPath = o.input ∧
      tree.read o.input = .ok [110, 111, 112, 10] ∧
      result.code = 0 ∧ result.tree.read o.input = .ok [0x42, 0xA0] := by
  intro tree o result
  have hparse : Frontend.standard.parse ["p.bin"] = .ok o := by rfl
  have hresult : result = o.outcome tree [] := Session.outcome_runWith hparse none tree []
  rw [hresult]
  refine ⟨hparse, by decide, by decide, by decide, by decide +kernel, by decide +kernel⟩

end Command

end PioKit
