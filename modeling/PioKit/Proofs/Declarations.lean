import Mathlib.Data.List.Basic
import Mathlib.Data.List.Induction
import PioKit.Proofs.Collection
import PioKit.Proofs.LabelHistory

/-!
# What the lines of a text declare

The program of a text, said without collecting it. `WellFormed lines` lists what the lines must keep
to, each rule over all of them at once, and `Describes lines p` says what the program `p` then
consists of. Collecting goes through exactly on well-formed lines and its result is the one described.

The two are tied together line by line: `Follows before content` is what a line must keep to after
the lines before it. A program that describes those lines takes in exactly the lines that follow
them, and describes one line more afterwards.
-/

namespace PioKit

open Instruction (IsNumeral)

namespace Source

/-- The arguments of a line that holds the directive `keyword`. -/
def Line.arguments? (keyword : String) (line : Line) : Option (List String) :=
  match line.content with
  | .directive found arguments => if found = keyword then some arguments else none
  | _ => none

/-- The name that a label line defines. -/
def Line.label? (line : Line) : Option String :=
  match line.content with
  | .label name => some name
  | _ => none

/-- The arguments of all lines that hold the directive `keyword`, in order. -/
def uses (keyword : String) (lines : List Line) : List (List String) :=
  lines.filterMap (Line.arguments? keyword)

/-- The names of all label lines, in order. -/
def labelNames (lines : List Line) : List String :=
  lines.filterMap Line.label?

/-- The instructions of all instruction lines, in order. -/
def pending (lines : List Line) : List PendingInstruction :=
  lines.filterMap Line.pending?

/-- The lines can be collected. -/
structure WellFormed (lines : List Line) : Prop where
  /-- There is at most one `.program`. -/
  program_once : (uses ".program" lines).length ≤ 1
  /-- It has an argument. -/
  program_named : ∀ arguments ∈ uses ".program" lines, arguments ≠ []
  /-- The first argument of every `.side_set` is a number from 0 to 255. -/
  sideSet_valued : ∀ arguments ∈ uses ".side_set" lines,
    ∃ token rest width, arguments = token :: rest ∧ IsNumeral token width ∧ width ≤ 255
  /-- No `.wrap_target` follows an instruction. -/
  wrapTarget_first : lines.Pairwise fun earlier later =>
    earlier.pending? ≠ none → later.arguments? ".wrap_target" = none
  /-- There are no other directives than these and `.wrap`. -/
  keyword_known : ∀ line ∈ lines, ∀ keyword arguments,
    line.content = .directive keyword arguments →
      keyword ∈ [".program", ".side_set", ".wrap", ".wrap_target"]
  /-- Every label has a name. -/
  label_named : ∀ name ∈ labelNames lines, name ≠ ""
  /-- No two labels have the same name. -/
  label_once : (labelNames lines).Nodup

/-- One of the lines defines the label, whose index is the number of instructions before it. -/
def Defines (lines : List Line) (label : Label) : Prop :=
  ∃ before line after, lines = before ++ line :: after ∧ line.label? = some label.name ∧
    label.index = (pending before).length ∧ label.line = line.number

/-- The program is what the lines declare. -/
structure Describes (lines : List Line) (p : Program) : Prop where
  /-- The name is the first argument of the `.program` line. -/
  name : uses ".program" lines = [] ∧ p.name = none ∨
    ∃ name rest, uses ".program" lines = [name :: rest] ∧ p.name = some name
  /-- The width is the first argument of the last `.side_set` line. -/
  sideSet : uses ".side_set" lines = [] ∧ p.sideSet = 0 ∨
    ∃ token rest, (uses ".side_set" lines).getLast? = some (token :: rest) ∧
      IsNumeral token p.sideSet
  /-- The instructions are those of the lines, in order. -/
  instructions : p.instructions.toList = pending lines
  /-- A name is found exactly if a line defines it, and then as that line does. -/
  label : ∀ name label, p.labels.find? name = some label ↔ label.name = name ∧ Defines lines label
  /-- There are as many labels as label lines. -/
  size : p.labels.size = (labelNames lines).length

/-- What a line must keep to after the lines before it. -/
inductive Follows (before : List Line) : Content → Prop where
  | program {name : String} {rest : List String} (first : uses ".program" before = []) :
      Follows before (.directive ".program" (name :: rest))
  | sideSet {token : String} {rest : List String} {width : Nat} (value : IsNumeral token width)
      (le : width ≤ 255) : Follows before (.directive ".side_set" (token :: rest))
  | wrapTarget {arguments : List String} (first : pending before = []) :
      Follows before (.directive ".wrap_target" arguments)
  | wrap {arguments : List String} : Follows before (.directive ".wrap" arguments)
  | label {name : String} (named : name ≠ "") (new : name ∉ labelNames before) :
      Follows before (.label name)
  | instruction {text : String} : Follows before (.instruction text)

/-! ## One line more -/

variable {lines : List Line} {line : Line}

theorem uses_snoc (keyword : String) (lines : List Line) (line : Line) :
    uses keyword (lines ++ [line]) = uses keyword lines ++ (line.arguments? keyword).toList := by
  simp only [uses, List.filterMap_append, List.filterMap_cons, List.filterMap_nil]
  cases line.arguments? keyword <;> rfl

theorem labelNames_snoc (lines : List Line) (line : Line) :
    labelNames (lines ++ [line]) = labelNames lines ++ line.label?.toList := by
  simp only [labelNames, List.filterMap_append, List.filterMap_cons, List.filterMap_nil]
  cases line.label? <;> rfl

theorem pending_snoc (lines : List Line) (line : Line) :
    pending (lines ++ [line]) = pending lines ++ line.pending?.toList := by
  simp only [pending, List.filterMap_append, List.filterMap_cons, List.filterMap_nil]
  cases line.pending? <;> rfl

theorem pending_eq_nil_iff :
    pending lines = [] ↔ ∀ line ∈ lines, line.pending? = none :=
  List.filterMap_eq_nil_iff

/-- A label is defined by the last line or before it. -/
theorem defines_snoc_iff {label : Label} :
    Defines (lines ++ [line]) label ↔
      Defines lines label ∨
        line.label? = some label.name ∧ label.index = (pending lines).length ∧
          label.line = line.number := by
  constructor
  · rintro ⟨before, found, after, hlines, hlabel⟩
    rcases List.eq_nil_or_concat after with rfl | ⟨after, last, rfl⟩
    · obtain ⟨rfl, hfound⟩ := List.append_inj' hlines rfl
      cases hfound
      exact .inr hlabel
    · have hsplit : lines ++ [line] = (before ++ found :: after) ++ [last] := by
        rw [hlines]
        simp
      obtain ⟨rfl, -⟩ := List.append_inj' hsplit rfl
      exact .inl ⟨before, found, after, rfl, hlabel⟩
  · rintro (⟨before, found, after, rfl, hlabel⟩ | hlabel)
    · exact ⟨before, found, after ++ [line], by simp, hlabel⟩
    · exact ⟨lines, line, [], rfl, hlabel⟩

theorem exists_defines_of_mem_labelNames {name : String} (h : name ∈ labelNames lines) :
    ∃ label, label.name = name ∧ Defines lines label := by
  obtain ⟨line, hmem, hline⟩ := List.mem_filterMap.mp h
  obtain ⟨before, after, rfl⟩ := List.append_of_mem hmem
  exact ⟨⟨name, (pending before).length, line.number⟩, rfl, before, line, after, rfl, hline, rfl,
    rfl⟩

theorem mem_labelNames_of_defines {label : Label} (h : Defines lines label) :
    label.name ∈ labelNames lines := by
  obtain ⟨before, line, after, rfl, hline, -⟩ := h
  exact List.mem_filterMap.mpr ⟨line, by simp, hline⟩

theorem WellFormed.init (h : WellFormed (lines ++ [line])) : WellFormed lines where
  program_once := by
    have hlen := h.program_once
    rw [uses_snoc, List.length_append] at hlen
    omega
  program_named arguments hmem := by
    refine h.program_named arguments ?_
    rw [uses_snoc]
    exact List.mem_append_left _ hmem
  sideSet_valued arguments hmem := by
    refine h.sideSet_valued arguments ?_
    rw [uses_snoc]
    exact List.mem_append_left _ hmem
  wrapTarget_first := (List.pairwise_append.mp h.wrapTarget_first).1
  keyword_known found hmem := h.keyword_known found (List.mem_append_left _ hmem)
  label_named name hmem := by
    refine h.label_named name ?_
    rw [labelNames_snoc]
    exact List.mem_append_left _ hmem
  label_once := by
    have hnodup := h.label_once
    rw [labelNames_snoc] at hnodup
    exact (List.nodup_append.mp hnodup).1

/-- The last of the lines keeps to what the lines before it ask of it. -/
theorem WellFormed.follows (h : WellFormed (lines ++ [line])) : Follows lines line.content := by
  have hlast : line ∈ lines ++ [line] := by simp
  cases hcontent : line.content with
  | instruction text => exact .instruction
  | label name =>
    have hlabel : line.label? = some name := by rw [Line.label?, hcontent]
    have hnamed := h.label_named name
    have honce := h.label_once
    rw [labelNames_snoc, hlabel] at hnamed honce
    refine .label (hnamed (by simp)) fun hmem => ?_
    exact (List.nodup_append.mp honce).2.2 name hmem name (by simp) rfl
  | directive keyword arguments =>
    have huse : line.arguments? keyword = some arguments := by simp [Line.arguments?, hcontent]
    have hmem : arguments ∈ uses keyword (lines ++ [line]) := by
      rw [uses_snoc, huse]
      simp
    have hknown := h.keyword_known line hlast keyword arguments hcontent
    simp only [List.mem_cons, List.not_mem_nil, or_false] at hknown
    rcases hknown with rfl | rfl | rfl | rfl
    · have hlen := h.program_once
      rw [uses_snoc, huse, List.length_append] at hlen
      have hnil : (uses ".program" lines).length = 0 := by
        simp only [Option.toList_some, List.length_singleton] at hlen
        omega
      obtain ⟨name, rest, rfl⟩ := List.exists_cons_of_ne_nil (h.program_named arguments hmem)
      exact .program (List.length_eq_zero_iff.mp hnil)
    · obtain ⟨token, rest, width, rfl, hwidth, hle⟩ := h.sideSet_valued arguments hmem
      exact .sideSet hwidth hle
    · exact .wrap
    · refine .wrapTarget (pending_eq_nil_iff.mpr fun earlier hearlier => ?_)
      have hpair := (List.pairwise_append.mp h.wrapTarget_first).2.2 earlier hearlier line (by simp)
      by_contra hpending
      rw [hpair hpending] at huse
      cases huse

/-- What a directive must keep to, keyword by keyword. -/
theorem Follows.directive {keyword : String} {arguments : List String}
    (h : Follows lines (.directive keyword arguments)) :
    keyword ∈ [".program", ".side_set", ".wrap", ".wrap_target"] ∧
      (keyword = ".program" → arguments ≠ [] ∧ uses ".program" lines = []) ∧
      (keyword = ".side_set" → ∃ token rest width, arguments = token :: rest ∧
        IsNumeral token width ∧ width ≤ 255) ∧
      (keyword = ".wrap_target" → pending lines = []) := by
  cases h with
  | program first => exact ⟨by simp, fun _ => ⟨by simp, first⟩, by simp, by simp⟩
  | sideSet value le =>
    exact ⟨by simp, by simp, fun _ => ⟨_, _, _, rfl, value, le⟩, by simp⟩
  | wrapTarget first => exact ⟨by simp, by simp, by simp, fun _ => first⟩
  | wrap => exact ⟨by simp, by simp, by simp, by simp⟩

theorem content_of_arguments? {keyword : String} {arguments : List String}
    (h : line.arguments? keyword = some arguments) :
    line.content = .directive keyword arguments := by
  unfold Line.arguments? at h
  split at h
  · next hcontent =>
    split at h
    · next hkeyword =>
      cases h
      rw [hcontent, hkeyword]
    · cases h
  · cases h

theorem content_of_label? {name : String} (h : line.label? = some name) :
    line.content = .label name := by
  unfold Line.label? at h
  split at h
  · next hcontent =>
    cases h
    exact hcontent
  · cases h

theorem content_of_pending? {i : PendingInstruction} (h : line.pending? = some i) :
    line.content = .instruction i.text := by
  unfold Line.pending? at h
  split at h
  · next hcontent =>
    cases h
    exact hcontent
  · cases h

theorem WellFormed.snoc (h : WellFormed lines) (hline : Follows lines line.content) :
    WellFormed (lines ++ [line]) := by
  have hdirective : ∀ {keyword arguments}, line.arguments? keyword = some arguments →
      Follows lines (.directive keyword arguments) := fun huse => content_of_arguments? huse ▸ hline
  have hlabel : ∀ {name}, line.label? = some name → name ≠ "" ∧ name ∉ labelNames lines := by
    intro name hname
    rw [content_of_label? hname] at hline
    cases hline with
    | label named new => exact ⟨named, new⟩
  constructor
  · rw [uses_snoc]
    cases huse : line.arguments? ".program" with
    | none => simpa using h.program_once
    | some arguments =>
      rw [((hdirective huse).directive.2.1 rfl).2]
      simp
  · intro arguments hmem
    rw [uses_snoc, List.mem_append, Option.mem_toList] at hmem
    rcases hmem with hmem | huse
    · exact h.program_named arguments hmem
    · exact ((hdirective huse).directive.2.1 rfl).1
  · intro arguments hmem
    rw [uses_snoc, List.mem_append, Option.mem_toList] at hmem
    rcases hmem with hmem | huse
    · exact h.sideSet_valued arguments hmem
    · exact (hdirective huse).directive.2.2.1 rfl
  · refine List.pairwise_append.mpr ⟨h.wrapTarget_first, List.pairwise_singleton _ _, ?_⟩
    intro earlier hearlier later hlater hpending
    obtain rfl := List.mem_singleton.mp hlater
    cases huse : later.arguments? ".wrap_target" with
    | none => rfl
    | some arguments =>
      have hnil := (hdirective huse).directive.2.2.2 rfl
      exact absurd (pending_eq_nil_iff.mp hnil earlier hearlier) hpending
  · intro found hmem keyword arguments hcontent
    rcases List.mem_append.mp hmem with hmem | hlast
    · exact h.keyword_known found hmem keyword arguments hcontent
    · obtain rfl := List.mem_singleton.mp hlast
      rw [hcontent] at hline
      exact hline.directive.1
  · intro name hmem
    rw [labelNames_snoc, List.mem_append, Option.mem_toList] at hmem
    rcases hmem with hmem | hname
    · exact h.label_named name hmem
    · exact (hlabel hname).1
  · rw [labelNames_snoc]
    refine List.nodup_append.mpr ⟨h.label_once, by cases line.label? <;> simp, ?_⟩
    intro name hmem name' hname' heq
    subst heq
    exact (hlabel (Option.mem_toList.mp hname')).2 hmem

theorem wellFormed_nil : WellFormed [] where
  program_once := by simp [uses]
  program_named := by simp [uses]
  sideSet_valued := by simp [uses]
  wrapTarget_first := List.Pairwise.nil
  keyword_known := by simp
  label_named := by simp [labelNames]
  label_once := by simp [labelNames]

/-! ## The program so far -/

variable {p p' : Program}

theorem describes_nil : Describes [] Program.empty where
  name := .inl ⟨rfl, rfl⟩
  sideSet := .inl ⟨rfl, rfl⟩
  instructions := rfl
  label name label := by simp [Program.empty, LabelTable.empty, LabelTable.find?, Defines]
  size := rfl

/-- A name is free exactly if no line before defines it. -/
theorem Describes.find?_eq_none_iff (h : Describes lines p) {name : String} :
    p.labels.find? name = none ↔ name ∉ labelNames lines := by
  constructor
  · intro hnone hmem
    obtain ⟨label, hname, hdefines⟩ := exists_defines_of_mem_labelNames hmem
    rw [(h.label name label).mpr ⟨hname, hdefines⟩] at hnone
    cases hnone
  · intro hmem
    by_contra hsome
    obtain ⟨label, hlabel⟩ := Option.ne_none_iff_exists'.mp hsome
    obtain ⟨rfl, hdefines⟩ := (h.label name label).mp hlabel
    exact hmem (mem_labelNames_of_defines hdefines)

/-- A program that describes the lines so far takes in exactly the lines that follow them. -/
theorem Describes.exists_adds_iff (h : Describes lines p) :
    (∃ p', Program.Adds p line.number line.content p') ↔ Follows lines line.content := by
  constructor
  · rintro ⟨p', hadds⟩
    generalize line.content = content at hadds
    cases hadds with
    | name hname =>
      refine .program ?_
      rcases h.name with ⟨hnil, -⟩ | ⟨name, rest, -, hsome⟩
      · exact hnil
      · rw [hname] at hsome
        cases hsome
    | sideSet hw hle => exact .sideSet hw hle
    | wrapTarget hempty =>
      refine .wrapTarget ?_
      rw [← h.instructions]
      simpa using hempty
    | wrap => exact .wrap
    | label hname hdef =>
      refine .label hname (h.find?_eq_none_iff.mp ?_)
      exact LabelTable.find?_eq_none_of_define hdef
    | instruction => exact .instruction
  · intro hfollows
    generalize line.content = content at hfollows
    cases hfollows with
    | program first =>
      rcases h.name with ⟨-, hnone⟩ | ⟨name, rest, hone, -⟩
      · exact ⟨_, .name hnone⟩
      · rw [first] at hone
        cases hone
    | sideSet value le => exact ⟨_, .sideSet value le⟩
    | wrapTarget first =>
      refine ⟨_, .wrapTarget ?_⟩
      rw [← h.instructions] at first
      simpa using first
    | wrap => exact ⟨_, .wrap⟩
    | @label name named new =>
      have hfree : p.labels.find? (Label.mk name p.instructions.size line.number).name = none :=
        h.find?_eq_none_iff.mpr new
      obtain ⟨table, hdef⟩ := LabelTable.exists_define_of_find?_eq_none hfree
      exact ⟨_, .label named hdef⟩
    | instruction => exact ⟨_, .instruction⟩

theorem Describes.name_snoc (h : Describes lines p)
    (hadds : Program.Adds p line.number line.content p') :
    uses ".program" (lines ++ [line]) = [] ∧ p'.name = none ∨
      ∃ name rest, uses ".program" (lines ++ [line]) = [name :: rest] ∧ p'.name = some name := by
  rw [uses_snoc]
  obtain ⟨number, text, content⟩ := line
  cases hadds with
  | name hname =>
    rcases h.name with ⟨hnil, -⟩ | ⟨_, _, -, hsome⟩
    · exact .inr ⟨_, _, by rw [hnil]; rfl, rfl⟩
    · rw [hname] at hsome
      cases hsome
  | sideSet | wrapTarget | wrap | label | instruction => simpa [Line.arguments?] using h.name

theorem Describes.sideSet_snoc (h : Describes lines p)
    (hadds : Program.Adds p line.number line.content p') :
    uses ".side_set" (lines ++ [line]) = [] ∧ p'.sideSet = 0 ∨
      ∃ token rest, (uses ".side_set" (lines ++ [line])).getLast? = some (token :: rest) ∧
        IsNumeral token p'.sideSet := by
  rw [uses_snoc]
  obtain ⟨number, text, content⟩ := line
  cases hadds with
  | sideSet hw hle => exact .inr ⟨_, _, List.getLast?_concat, hw⟩
  | name | wrapTarget | wrap | label | instruction => simpa [Line.arguments?] using h.sideSet

theorem Describes.label_snoc (h : Describes lines p)
    (hadds : Program.Adds p line.number line.content p') (name : String) (label : Label) :
    p'.labels.find? name = some label ↔ label.name = name ∧ Defines (lines ++ [line]) label := by
  rw [defines_snoc_iff]
  obtain ⟨number, text, content⟩ := line
  cases hadds with
  | @label new table hnew hdef =>
    have hfree : ∀ old : Label, old.name = new → ¬ Defines lines old := by
      intro old hname hold
      have hnone := LabelTable.find?_eq_none_of_define hdef
      have hmem := mem_labelNames_of_defines hold
      rw [hname] at hmem
      exact h.find?_eq_none_iff.mp hnone hmem
    have hsize : p.instructions.size = (pending lines).length := by
      rw [← h.instructions, Array.length_toList]
    rw [LabelTable.find?_of_define hdef]
    -- the new name has the new meaning only, and every other name the meaning it had
    by_cases hname : new = name
    · subst hname
      simp only [if_true, Option.some.injEq, Line.label?]
      constructor
      · rintro rfl
        exact ⟨rfl, .inr ⟨rfl, hsize, rfl⟩⟩
      · rintro ⟨hlabel, hold | ⟨-, hindex, hline⟩⟩
        · exact absurd hold (hfree label hlabel)
        · cases label
          simp_all
    · simp only [hname, if_false, h.label, Line.label?, Option.some.injEq]
      constructor
      · rintro ⟨hlabel, hold⟩
        exact ⟨hlabel, .inl hold⟩
      · rintro ⟨hlabel, hold | ⟨hnew, -⟩⟩
        · exact ⟨hlabel, hold⟩
        · exact absurd (hnew.trans hlabel) hname
  | name | sideSet | wrapTarget | wrap | instruction => simpa [Line.label?] using h.label name label

theorem Describes.size_snoc (h : Describes lines p)
    (hadds : Program.Adds p line.number line.content p') :
    p'.labels.size = (labelNames (lines ++ [line])).length := by
  rw [labelNames_snoc, List.length_append, ← h.size]
  obtain ⟨number, text, content⟩ := line
  cases hadds with
  | label hname hdef => exact LabelTable.size_of_define hdef
  | name | sideSet | wrapTarget | wrap | instruction => rfl

/-- A line that is taken in is described by the program afterwards, and so are the lines before. -/
theorem Describes.snoc (h : Describes lines p)
    (hadds : Program.Adds p line.number line.content p') : Describes (lines ++ [line]) p' where
  name := h.name_snoc hadds
  sideSet := h.sideSet_snoc hadds
  instructions := by
    rw [Program.instructions_of_adds hadds, h.instructions, pending_snoc]
  label := h.label_snoc hadds
  size := h.size_snoc hadds

end Source

/-! ## All lines -/

namespace Program

open Source

theorem ofLines_snoc (lines : List Line) (line : Line) :
    ofLines (lines ++ [line]) = ofLines lines >>= fun p => p.addLine line := by
  simp [ofLines, List.foldlM_append]

/-- Lines that are collected are well-formed, and the program describes them. -/
theorem wellFormed_and_describes_of_ofLines {lines : List Line} {p : Program}
    (h : ofLines lines = .ok p) : WellFormed lines ∧ Describes lines p := by
  -- the program describes the lines so far, so what it takes in next is what follows them
  induction lines using List.reverseRecOn generalizing p with
  | nil =>
    cases h
    exact ⟨wellFormed_nil, describes_nil⟩
  | append_singleton lines line ih =>
    rw [ofLines_snoc, bind_eq_ok_iff] at h
    obtain ⟨q, hq, hline⟩ := h
    have hadds := addLine_eq_ok_iff.mp hline
    obtain ⟨hwell, hdescribes⟩ := ih hq
    exact ⟨hwell.snoc (hdescribes.exists_adds_iff.mp ⟨p, hadds⟩), hdescribes.snoc hadds⟩

theorem exists_ofLines_of_wellFormed {lines : List Line} (h : WellFormed lines) :
    ∃ p, ofLines lines = .ok p := by
  induction lines using List.reverseRecOn with
  | nil => exact ⟨empty, rfl⟩
  | append_singleton lines line ih =>
    obtain ⟨q, hq⟩ := ih h.init
    obtain ⟨-, hdescribes⟩ := wellFormed_and_describes_of_ofLines hq
    obtain ⟨p, hadds⟩ := hdescribes.exists_adds_iff.mpr h.follows
    refine ⟨p, ?_⟩
    rw [ofLines_snoc, bind_eq_ok_iff]
    exact ⟨q, hq, addLine_eq_ok_iff.mpr hadds⟩

/-- On the lines of a text, an instruction is the number and the whole text of its line. -/
theorem pending_lines (text : String) :
    pending (Source.lines text) =
      ((Source.lines text).filter fun line => line.pending?.isSome).map fun line =>
        { line := line.number, text := line.text } := by
  rw [pending, ← List.filterMap_eq_map, ← List.filterMap_eq_filter, List.filterMap_filterMap]
  refine List.filterMap_congr fun line hmem => ?_
  cases hpending : line.pending? with
  | none => simp [Option.guard, hpending]
  | some i => simp [Option.guard, hpending, eq_of_pending?_eq_some hmem hpending]

/-- Collecting goes through exactly on well-formed lines, and then the program is what they declare:
its instructions are the instruction lines with their numbers and texts. -/
theorem ofLines_eq_ok_iff_wellFormed (text : String) :
    ((∃ p, ofLines (Source.lines text) = .ok p) ↔ WellFormed (Source.lines text)) ∧
    ∀ p, ofLines (Source.lines text) = .ok p →
      Describes (Source.lines text) p ∧
      p.instructions.toList =
        ((Source.lines text).filter fun line => line.pending?.isSome).map fun line =>
          { line := line.number, text := line.text } := by
  refine ⟨⟨?_, exists_ofLines_of_wellFormed⟩, fun p hp => ?_⟩
  · rintro ⟨p, hp⟩
    exact (wellFormed_and_describes_of_ofLines hp).1
  · obtain ⟨-, hdescribes⟩ := wellFormed_and_describes_of_ofLines hp
    exact ⟨hdescribes, hdescribes.instructions.trans (pending_lines text)⟩

/-- Two labels at one index, one at the end, and directives after an instruction. -/
theorem ofLines_eq_ok_iff_wellFormed_blink :
    let text := ".side_set 1\n.wrap_target\na:\nb: ; too\n nop\n.program blink 2\n.side_set 2 opt\nc :"
    let p : Program :=
      { name := some "blink"
        sideSet := 2
        labels := ⟨[⟨"c", 1, 8⟩, ⟨"b", 0, 4⟩, ⟨"a", 0, 3⟩], by decide⟩
        instructions := #[⟨5, "nop"⟩] }
    ofLines (Source.lines text) = .ok p ∧ WellFormed (Source.lines text) ∧
      Describes (Source.lines text) p := by
  intro text p
  have hp : ofLines (Source.lines text) = .ok p := by
    unfold text
    rfl
  obtain ⟨hwell, hdescribes⟩ := ofLines_eq_ok_iff_wellFormed text
  exact ⟨hp, hwell.mp ⟨p, hp⟩, (hdescribes p hp).1⟩

end Program

end PioKit
