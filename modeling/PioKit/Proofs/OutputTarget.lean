import PioKit.Command.OutputPath
import PioKit.Proofs.FileAccess
import PioKit.Proofs.Tokens

/-!
# The target of a run

Where the output of a run goes, said without the functions that find it (`Options.Targets`): to the path
that is given; else to standard output, if the program comes from standard input; else beside the input,
under its name with the extension of the format (`Renames`). The last name of a path is what stands behind
its last slash (`Location.Splits`), and the path of a file that can be read has one, so the output of a
program that can be read always has a target, and only one.
-/

namespace PioKit

/-- Going back to the last mark gives what stands behind it. -/
theorem reverse_takeWhile_reverse_append {mark : Char} {front back : List Char}
    (hback : mark ∉ back) (hfront : ∀ c ∈ front.getLast?, c = mark) :
    ((front ++ back).reverse.takeWhile (· != mark)).reverse = back := by
  have hplain : ∀ c ∈ back.reverse, (c != mark) = true := by
    intro c hc
    have hne : c ≠ mark := fun heq => hback (heq ▸ List.mem_reverse.mp hc)
    simpa using hne
  have hmark : front.reverse.takeWhile (· != mark) = [] := by
    rw [← List.head?_reverse] at hfront
    cases hreverse : front.reverse with
    | nil => rfl
    | cons c cs =>
      rw [hreverse] at hfront
      simp [hfront c rfl]
  rw [List.reverse_append, List.takeWhile_append_of_pos hplain, hmark, List.append_nil,
    List.reverse_reverse]

namespace Location

/-- A path can be cut in front of its last name: what stands in front ends in a slash if there is
anything, and the name has no slash. -/
structure Splits (directory name : List Char) : Prop where
  slash : '/' ∉ name
  nonempty : name ≠ []
  closed : ∀ c ∈ directory.getLast?, c = '/'

variable {directory name name' : List Char}

theorem exists_last_name (cs : List Char) :
    ∃ directory name, cs = directory ++ name ∧ '/' ∉ name ∧ ∀ c ∈ directory.getLast?, c = '/' := by
  refine ⟨(cs.reverse.dropWhile (· != '/')).reverse, (cs.reverse.takeWhile (· != '/')).reverse,
    ?_, ?_, ?_⟩
  · rw [← List.reverse_append, List.takeWhile_append_dropWhile, List.reverse_reverse]
  · intro hmem
    have himp := List.mem_takeWhile_imp (List.mem_reverse.mp hmem)
    simp at himp
  · intro c hc
    rw [List.getLast?_reverse] at hc
    have hnot := List.head?_dropWhile_not (· != '/') cs.reverse
    rw [hc] at hnot
    simpa using hnot

/-- The name is what stands behind the last slash. -/
theorem Splits.takeWhile_reverse (h : Splits directory name) :
    ((directory ++ name).reverse.takeWhile (· != '/')).reverse = name :=
  reverse_takeWhile_reverse_append h.slash h.closed

theorem Splits.name_eq {directory' : List Char} (h : Splits directory name)
    (h' : Splits directory' name') (heq : directory ++ name = directory' ++ name') : name = name' := by
  rw [← h.takeWhile_reverse, heq, h'.takeWhile_reverse]

theorem namesOf_append (h : Splits directory name) :
    namesOf (String.ofList (directory ++ name)) =
      namesOf (String.ofList directory) ++ [String.ofList name] := by
  have hname : ∀ c ∈ name, (c == '/') = false := by
    intro c hc
    have hne : c ≠ '/' := fun heq => h.slash (heq ▸ hc)
    simpa using hne
  have hone : Text.fields (· == '/') name = [name] := by
    have hpart : Text.fields (· == '/') (name ++ []) = name :: Text.fields (· == '/') [] :=
      Text.fields_part_append hname h.nonempty (by simp)
    rwa [List.append_nil, Text.fields_nil] at hpart
  have hfields : Text.fields (· == '/') (directory ++ name) =
      Text.fields (· == '/') directory ++ [name] := by
    rcases List.eq_nil_or_concat directory with rfl | ⟨front, last, rfl⟩
    · rw [List.nil_append, Text.fields_nil, List.nil_append, hone]
    · obtain rfl : last = '/' := h.closed last (by simp)
      have hslash (back : List Char) : Text.fields (· == '/') (front ++ '/' :: back) =
          Text.fields (· == '/') front ++ Text.fields (· == '/') back :=
        Text.fields_append_cons rfl front back
      rw [List.concat_eq_append, List.append_assoc, List.singleton_append, hslash, hslash, hone,
        Text.fields_nil, List.append_nil]
  simp only [namesOf, String.toList_ofList, hfields, List.map_append, List.map_singleton]

theorem beginsWithSlash_append (h : Splits directory name) :
    beginsWithSlash (String.ofList (directory ++ name)) =
      beginsWithSlash (String.ofList directory) := by
  cases directory with
  | cons c cs => simp [beginsWithSlash]
  | nil =>
    have hhead : name.head? ≠ some '/' := fun heq => h.slash (List.mem_of_head? heq)
    simp [beginsWithSlash, hhead]

end Location

namespace FileTree

open Location (Splits)

variable {tree : FileTree}

/-- The path of a file ends in a name. -/
theorem exists_splits_of_read {path : String} {bytes : List UInt8}
    (h : tree.read path = .ok bytes) :
    ∃ directory name, path = String.ofList (directory ++ name) ∧ Splits directory name ∧
      name ≠ ['.'] ∧ name ≠ ['.', '.'] := by
  obtain ⟨here, last, hlocate, hslash, -, -⟩ := read_eq_ok_iff.mp h
  obtain ⟨-, front, hnames, -, hdot, hdots⟩ := locate_eq_some_iff.mp hlocate
  obtain ⟨directory, name, hpath, hname, hclosed⟩ := Location.exists_last_name path.toList
  have hpath' : path = String.ofList (directory ++ name) := by rw [← hpath, String.ofList_toList]
  have hnonempty : name ≠ [] := by
    -- Without a name the path is empty or ends in a slash.
    intro hnil
    rw [hnil, List.append_nil] at hpath
    rw [← hpath] at hclosed
    cases hlast : path.toList.getLast? with
    | none =>
      rw [List.getLast?_eq_none_iff] at hlast
      simp [Location.namesOf, hlast, Text.fields_nil] at hnames
    | some c =>
      rw [hclosed c hlast] at hlast
      simp [Location.endsInSlash, hlast] at hslash
  have hsplits : Splits directory name := ⟨hname, hnonempty, hclosed⟩
  rw [hpath', Location.namesOf_append hsplits] at hnames
  obtain ⟨-, hlast⟩ := List.append_inj' hnames rfl
  rw [List.singleton_inj] at hlast
  refine ⟨directory, name, hpath', hsplits, fun hname => hdot ?_, fun hname => hdots ?_⟩
  · rw [← hlast, hname]
  · rw [← hlast, hname]

end FileTree

namespace Command

open Location (Splits)

/-! ## The extension of a name -/

/-- A file name with another extension. The extension stands behind the last dot, but a dot in front of the
whole name is part of the name. -/
inductive Renames (extension : List Char) : List Char → List Char → Prop
  /-- Without a dot there is no extension yet. -/
  | added {name : List Char} (h : '.' ∉ name) : Renames extension name (name ++ '.' :: extension)
  /-- The only dot stands in front. -/
  | hidden {ending : List Char} (h : '.' ∉ ending) :
    Renames extension ('.' :: ending) ('.' :: (ending ++ '.' :: extension))
  /-- In front of the extension there is but a dot: with the dot of the extension that means the directory
  above, which has no extension. -/
  | above {ending : List Char} (h : '.' ∉ ending) : Renames extension ('.' :: '.' :: ending) ['.', '.']
  /-- The extension is replaced. -/
  | replaced {stem ending : List Char} (hnil : stem ≠ []) (hdot : stem ≠ ['.']) (h : '.' ∉ ending) :
    Renames extension (stem ++ '.' :: ending) (stem ++ '.' :: extension)

section Extension

variable {name stem ending extension : List Char}

theorem renameExtension_of_not_mem (h : '.' ∉ name) :
    renameExtension name extension = name ++ '.' :: extension := by
  have hending : (([] ++ name).reverse.takeWhile (· != '.')).reverse = name :=
    reverse_takeWhile_reverse_append h (by simp)
  rw [List.nil_append] at hending
  simp [renameExtension, hending]

theorem renameExtension_append (h : '.' ∉ ending) :
    renameExtension (stem ++ '.' :: ending) extension =
      if stem = [] then '.' :: (ending ++ '.' :: extension)
      else if stem = ['.'] then ['.', '.']
      else stem ++ '.' :: extension := by
  have hending : ((stem ++ '.' :: ending).reverse.takeWhile (· != '.')).reverse = ending := by
    rw [← List.singleton_append, ← List.append_assoc]
    exact reverse_takeWhile_reverse_append h (by simp)
  have hstem : (stem ++ '.' :: ending).take
      ((stem ++ '.' :: ending).length - ending.length - 1) = stem := by
    have hlength : (stem ++ '.' :: ending).length - ending.length - 1 = stem.length := by
      rw [List.length_append, List.length_cons]
      omega
    rw [hlength, List.take_left]
  unfold renameExtension
  simp only [hending, hstem, List.isEmpty_iff]
  split
  · next hnil => simp [hnil]
  · rfl

theorem exists_last_dot (h : '.' ∈ name) :
    ∃ stem ending, '.' ∉ ending ∧ name = stem ++ '.' :: ending := by
  obtain ⟨back, front, hname, hback⟩ := List.eq_append_cons_of_mem (List.mem_reverse.mpr h)
  refine ⟨front.reverse, back.reverse, fun hmem => hback (List.mem_reverse.mp hmem), ?_⟩
  rw [← List.reverse_reverse name, hname]
  simp

theorem renames_renameExtension (name extension : List Char) :
    Renames extension name (renameExtension name extension) := by
  by_cases hdot : '.' ∈ name
  · obtain ⟨stem, ending, hending, rfl⟩ := exists_last_dot hdot
    rw [renameExtension_append hending]
    by_cases hnil : stem = []
    · subst hnil
      exact .hidden hending
    by_cases hone : stem = ['.']
    · subst hone
      exact .above hending
    rw [if_neg hnil, if_neg hone]
    exact .replaced hnil hone hending
  · rw [renameExtension_of_not_mem hdot]
    exact .added hdot

theorem Renames.eq_renameExtension {name' : List Char} (h : Renames extension name name') :
    name' = renameExtension name extension := by
  cases h with
  | added hname => exact (renameExtension_of_not_mem hname).symm
  | @hidden ending hending =>
    have hrename := @renameExtension_append [] ending extension hending
    exact hrename.symm
  | @above ending hending =>
    have hrename := @renameExtension_append ['.'] ending extension hending
    exact hrename.symm
  | replaced hnil hdot hending =>
    rw [renameExtension_append hending, if_neg hnil, if_neg hdot]

end Extension

theorem withExtension_append {directory name : List Char} (h : Splits directory name)
    (hdot : name ≠ ['.']) (hdots : name ≠ ['.', '.']) (extension : String) :
    withExtension (String.ofList (directory ++ name)) extension =
      String.ofList (directory ++ renameExtension name extension.toList) := by
  have hdirectory : (directory ++ name).take ((directory ++ name).length - name.length) =
      directory := by
    rw [List.length_append, Nat.add_sub_cancel, List.take_left]
  unfold withExtension
  simp only [String.toList_ofList, String.length_ofList, h.takeWhile_reverse, h.nonempty, hdot,
    hdots, hdirectory, or_self, if_false]

/-! ## The target -/

namespace Options

/-- The output of a run goes to this path. A dash is standard input or standard output. -/
inductive Targets (o : Options) : String → Prop
  /-- The path is given. -/
  | given {path : String} (houtput : o.output = some path) : Targets o path
  /-- The program comes from standard input. -/
  | standard (houtput : o.output = none) (hinput : o.input = "-") : Targets o "-"
  /-- The output goes beside the input. -/
  | beside {directory name name' : List Char} {extension : String} (houtput : o.output = none)
    (hinput : o.input ≠ "-") (hpath : o.input = String.ofList (directory ++ name))
    (hsplits : Splits directory name) (hdot : name ≠ ['.']) (hdots : name ≠ ['.', '.'])
    (hextension : (o.format, extension) ∈
      [(.binary, "bin"), (.hex, "hex"), (.text, "txt"), (.array, "array")])
    (hname : Renames extension.toList name name') : Targets o (String.ofList (directory ++ name'))

variable {o : Options} {tree : FileTree} {path : String}

theorem outputPath_of_default (houtput : o.output = none) (hinput : o.input ≠ standardPath) :
    o.outputPath = withExtension o.input o.format.extension := by
  simp [outputPath, houtput, hinput]

/-- The target is the path that is computed. -/
theorem Targets.eq_outputPath (h : o.Targets path) : path = o.outputPath := by
  cases h with
  | given houtput => simp [outputPath, houtput]
  | standard houtput hinput => simp [outputPath, houtput, hinput, standardPath]
  | @beside _ _ _ extension houtput hinput hpath hsplits hdot hdots hextension hname =>
    have hformat : o.format.extension = extension := by
      cases hcase : o.format <;> simp_all [WordFile.Format.extension]
    rw [outputPath_of_default houtput hinput, hformat, hpath, withExtension_append hsplits hdot hdots,
      hname.eq_renameExtension]

/-- There is only one target. -/
theorem Targets.unique {path' : String} (h : o.Targets path) (h' : o.Targets path') : path = path' := by
  rw [h.eq_outputPath, h'.eq_outputPath]

/-- The output of a program that can be read has a target. -/
theorem targets_outputPath (hread : o.input ≠ "-" → ∃ bytes, tree.read o.input = .ok bytes) :
    o.Targets o.outputPath := by
  cases houtput : o.output with
  | some path =>
    have hpath : o.outputPath = path := by simp [outputPath, houtput]
    exact .given (houtput.trans (congrArg some hpath.symm))
  | none =>
    by_cases hinput : o.input = "-"
    · have hpath : o.outputPath = "-" := by simp [outputPath, houtput, hinput, standardPath]
      exact hpath ▸ .standard houtput hinput
    obtain ⟨bytes, hbytes⟩ := hread hinput
    obtain ⟨directory, name, hpath, hsplits, hdot, hdots⟩ := FileTree.exists_splits_of_read hbytes
    have hextension : (o.format, o.format.extension) ∈
        [(.binary, "bin"), (.hex, "hex"), (.text, "txt"), (.array, "array")] := by
      cases o.format <;> decide
    rw [outputPath_of_default houtput hinput, hpath, withExtension_append hsplits hdot hdots]
    exact .beside houtput hinput hpath hsplits hdot hdots hextension (renames_renameExtension _ _)

end Options

end Command

end PioKit
