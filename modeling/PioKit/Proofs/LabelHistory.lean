import Mathlib.Data.List.Dedup
import Mathlib.Data.List.Induction
import PioKit.Label

/-!
# The history of a label table

A table is filled by one definition after another, and a definition that is refused leaves it as it is.
What it holds in the end can be read off the definitions alone, without their answers: `HoldsFirst` says
that it is the first definition of every name and nothing else.

A table is determined by what is found in it: two tables that find the same labels list the same labels
(`agree_of_find?`). So one equation carries the whole history, the one of `find?_replay`, and a definition
can only answer for a name that is not found yet (`find?_attempt`).
-/

namespace PioKit

/-- Among labels with distinct names, a name is found exactly as it is listed. -/
theorem find?_name_eq_some_iff {labels : List Label} (h : (labels.map Label.name).Nodup) {name : String}
    {label : Label} :
    labels.find? (·.name == name) = some label ↔ label ∈ labels ∧ label.name = name := by
  constructor
  · intro hfind
    have hname := List.find?_some hfind
    exact ⟨List.mem_of_find?_eq_some hfind, beq_iff_eq.mp hname⟩
  · rintro ⟨hmem, rfl⟩
    cases hfind : labels.find? (·.name == label.name) with
    | none =>
      have hne := List.find?_eq_none.mp hfind label hmem
      exact absurd (beq_self_eq_true label.name) hne
    | some found =>
      have hname : found.name = label.name := by simpa using List.find?_some hfind
      rw [List.inj_on_of_nodup_map h (List.mem_of_find?_eq_some hfind) hmem hname]

theorem find?_name_eq_of_perm {labels labels' : List Label} (hperm : labels.Perm labels')
    (h : (labels.map Label.name).Nodup) (name : String) :
    labels.find? (·.name == name) = labels'.find? (·.name == name) := by
  have h' : (labels'.map Label.name).Nodup := (hperm.map Label.name).nodup_iff.mp h
  ext label
  rw [find?_name_eq_some_iff h, find?_name_eq_some_iff h', hperm.mem_iff]

namespace LabelTable

variable {table table' : LabelTable} {label : Label} {labels : List Label} {name : String}

/-! ## What a table lists -/

theorem nodup_entries (table : LabelTable) : table.entries.Nodup :=
  List.Nodup.of_map _ table.distinct

/-- The entries are the labels that are found by their names. -/
theorem mem_entries_iff : label ∈ table.entries ↔ table.find? label.name = some label := by
  rw [find?, find?_name_eq_some_iff table.distinct]
  exact (and_iff_left rfl).symm

theorem mem_names_entries_iff :
    name ∈ table.entries.map Label.name ↔ (table.find? name).isSome := by
  constructor
  · intro hmem
    exact Option.ne_none_iff_isSome.mp fun hnone => not_mem_of_find?_eq_none hnone hmem
  · intro hsome
    obtain ⟨label, hfind⟩ := Option.isSome_iff_exists.mp hsome
    obtain ⟨hmem, hname⟩ := (find?_name_eq_some_iff table.distinct).mp hfind
    exact List.mem_map.mpr ⟨label, hmem, hname⟩

theorem perm_sorted (table : LabelTable) : table.sorted.Perm table.entries :=
  List.mergeSort_perm _ _

/-- The names of the sorted labels ascend, since no name is listed twice. -/
theorem pairwise_name_sorted (table : LabelTable) :
    table.sorted.Pairwise fun a b => a.name < b.name := by
  have hle : table.sorted.Pairwise fun a b => decide (a.name ≤ b.name) = true := by
    apply List.pairwise_mergeSort
    · intro a b c hab hbc
      rw [decide_eq_true_eq] at hab hbc ⊢
      exact String.le_trans hab hbc
    · intro a b
      simpa using String.le_total a.name b.name
  have hne : table.sorted.Pairwise fun a b => a.name ≠ b.name :=
    List.pairwise_map.mp ((table.perm_sorted.map Label.name).nodup_iff.mpr table.distinct)
  refine hle.imp₂ (fun a b hab hname => ?_) hne
  rw [← String.not_le]
  exact fun hba => hname (String.le_antisymm (of_decide_eq_true hab) hba)

/-- The contents of two tables are the same. -/
structure Agree (table table' : LabelTable) : Prop where
  /-- Every name is found as the same label. -/
  find? : ∀ name, table.find? name = table'.find? name
  /-- There are as many labels. -/
  size : table.size = table'.size
  /-- The same labels are listed, in whatever order. -/
  entries : table.entries.Perm table'.entries
  /-- In the order of their names they are the same list. -/
  sorted : table.sorted = table'.sorted

/-- There is one way to list the labels by ascending names. -/
theorem sorted_eq (hperm : labels.Perm table.entries)
    (hascending : labels.Pairwise fun a b => a.name < b.name) : table.sorted = labels := by
  refine List.Perm.eq_of_pairwise ?_ table.pairwise_name_sorted hascending
    (table.perm_sorted.trans hperm.symm)
  intro a b _ _ hab hba
  exact absurd hba (String.lt_asymm hab)

theorem sorted_eq_of_perm (h : table.entries.Perm table'.entries) : table.sorted = table'.sorted :=
  sorted_eq (table'.perm_sorted.trans h.symm) table'.pairwise_name_sorted

/-- A table is determined by what is found in it. -/
theorem agree_of_find? (h : ∀ name, table.find? name = table'.find? name) : Agree table table' := by
  have hperm : table.entries.Perm table'.entries := by
    rw [List.perm_ext_iff_of_nodup table.nodup_entries table'.nodup_entries]
    intro label
    rw [mem_entries_iff, mem_entries_iff, h]
  exact ⟨h, hperm.length_eq, hperm, sorted_eq_of_perm hperm⟩

/-! ## One definition -/

theorem find?_eq_none_of_define (h : table.define label = .ok table') :
    table.find? label.name = none := by
  by_contra hfound
  have hsome : (table.find? label.name).isSome := Option.ne_none_iff_isSome.mp hfound
  rw [define_eq_error_iff.mpr ⟨hsome, rfl⟩] at h
  cases h

theorem exists_define_of_find?_eq_none (h : table.find? label.name = none) :
    ∃ table', table.define label = .ok table' := by
  cases hdef : table.define label with
  | ok table' => exact ⟨table', rfl⟩
  | error fault =>
    have hsome := (define_eq_error_iff.mp hdef).1
    rw [h] at hsome
    cases hsome

theorem size_of_define (h : table.define label = .ok table') : table'.size = table.size + 1 := by
  unfold define at h
  split at h
  · cases h
  · cases h
    rfl

/-- A definition that is tried on a table: its answer, and the table afterwards. A refused one leaves the
table as it is. -/
def attempt (table : LabelTable) (label : Label) : Except Fault Unit × LabelTable :=
  match table.define label with
  | .ok next => (.ok (), next)
  | .error fault => (.error fault, table)

theorem attempt_of_isSome (h : (table.find? label.name).isSome) :
    table.attempt label = (.error (.duplicateLabel label.name), table) := by
  rw [attempt, define_eq_error_iff.mpr ⟨h, rfl⟩]

theorem attempt_of_eq_none (h : table.find? label.name = none) :
    ∃ next, table.define label = .ok next ∧ table.attempt label = (.ok (), next) := by
  obtain ⟨next, hnext⟩ := exists_define_of_find?_eq_none h
  exact ⟨next, hnext, by rw [attempt, hnext]⟩

/-- A definition answers for its name if nothing did before, and for no other name. -/
theorem find?_attempt (table : LabelTable) (label : Label) (name : String) :
    (table.attempt label).2.find? name =
      (table.find? name).or (if label.name = name then some label else none) := by
  cases hfind : table.find? label.name with
  | some found =>
    rw [attempt_of_isSome (by rw [hfind]; rfl)]
    by_cases hname : label.name = name
    · subst hname
      rw [hfind, Option.some_or]
    · rw [if_neg hname, Option.or_none]
  | none =>
    obtain ⟨next, hdefine, hattempt⟩ := attempt_of_eq_none hfind
    rw [hattempt, find?_of_define hdefine]
    by_cases hname : label.name = name
    · subst hname
      rw [hfind, Option.none_or]
    · rw [if_neg hname, if_neg hname, Option.or_none]

/-! ## One definition after another -/

/-- The table after the definitions in their order, whatever was answered to each. -/
def replay (labels : List Label) : LabelTable :=
  labels.foldl (fun table label => (table.attempt label).2) empty

theorem replay_concat (labels : List Label) (label : Label) :
    replay (labels ++ [label]) = ((replay labels).attempt label).2 := by
  rw [replay, List.foldl_concat]
  rfl

/-- A name is found as it was first defined. -/
theorem find?_replay (labels : List Label) (name : String) :
    (replay labels).find? name = labels.find? (·.name == name) := by
  induction labels using List.reverseRecOn with
  | nil => rfl
  | append_singleton labels label ih =>
    rw [replay_concat, find?_attempt, ih, List.find?_append, List.find?_singleton]
    simp only [beq_iff_eq]

theorem isSome_find?_replay_iff :
    ((replay labels).find? name).isSome ↔ name ∈ labels.map Label.name := by
  rw [find?_replay, List.find?_isSome, List.mem_map]
  simp only [beq_iff_eq]

/-- The table holds the first of the definitions of every name, and nothing else. -/
structure HoldsFirst (labels : List Label) (table : LabelTable) : Prop where
  /-- A name is found as its first definition, with its index and its line. -/
  find? : ∀ name, table.find? name = labels.find? (·.name == name)
  /-- There are as many labels as there are names. -/
  size : table.size = (labels.map Label.name).dedup.length
  /-- Every name is listed once. -/
  names : (table.entries.map Label.name).Perm (labels.map Label.name).dedup
  /-- What is listed for a name is its first definition. -/
  entries : ∀ label ∈ table.entries, labels.find? (·.name == label.name) = some label
  /-- The sorted listing has the same labels. -/
  sorted : table.sorted.Perm table.entries
  /-- It is in the order of the names. -/
  ascending : table.sorted.Pairwise fun a b => a.name < b.name

theorem holdsFirst_replay (labels : List Label) : HoldsFirst labels (replay labels) := by
  have hnames : ((replay labels).entries.map Label.name).Perm (labels.map Label.name).dedup := by
    rw [List.perm_ext_iff_of_nodup (replay labels).distinct (List.nodup_dedup _)]
    intro name
    rw [mem_names_entries_iff, isSome_find?_replay_iff, List.mem_dedup]
  refine ⟨find?_replay labels, ?_, hnames, ?_, perm_sorted _, pairwise_name_sorted _⟩
  · rw [← hnames.length_eq, List.length_map, size]
  · intro label hmem
    rw [← find?_replay]
    exact mem_entries_iff.mp hmem

/-- After any definitions the table holds the first of every name. A further one is refused exactly if its
name was defined before, and changes nothing then. The order of definitions with distinct names does not
matter. -/
theorem replay_keepsFirst (labels : List Label) :
    HoldsFirst labels (replay labels) ∧
    (∀ label, ((replay labels).attempt label).1 =
      if label.name ∈ labels.map Label.name then .error (.duplicateLabel label.name) else .ok ()) ∧
    (∀ label, label.name ∈ labels.map Label.name →
      Agree (replay (labels ++ [label])) (replay labels)) ∧
    ∀ labels', labels.Perm labels' → (labels.map Label.name).Nodup →
      Agree (replay labels') (replay labels) := by
  refine ⟨holdsFirst_replay labels, ?_, ?_, ?_⟩
  · intro label
    by_cases hmem : label.name ∈ labels.map Label.name
    · rw [if_pos hmem, attempt_of_isSome (isSome_find?_replay_iff.mpr hmem)]
    · have hnone : (replay labels).find? label.name = none := by
        rw [← Option.not_isSome_iff_eq_none, isSome_find?_replay_iff]
        exact hmem
      obtain ⟨next, -, hattempt⟩ := attempt_of_eq_none hnone
      rw [if_neg hmem, hattempt]
  · intro label hmem
    rw [replay_concat, attempt_of_isSome (isSome_find?_replay_iff.mpr hmem)]
    exact agree_of_find? fun _ => rfl
  · intro labels' hperm hnodup
    apply agree_of_find?
    intro name
    rw [find?_replay, find?_replay, find?_name_eq_of_perm hperm hnodup]

/-- The second definition of `top` is refused, and the two others may change places. -/
theorem replay_keepsFirst_top :
    (replay [⟨"top", 0, 1⟩, ⟨"end", 2, 4⟩, ⟨"top", 4, 10⟩]).find? "top" = some ⟨"top", 0, 1⟩ ∧
      (replay [⟨"top", 0, 1⟩, ⟨"end", 2, 4⟩, ⟨"top", 4, 10⟩]).sorted =
        [⟨"end", 2, 4⟩, ⟨"top", 0, 1⟩] ∧
      ((replay [⟨"top", 0, 1⟩, ⟨"end", 2, 4⟩]).attempt ⟨"top", 4, 10⟩).1 =
        .error (.duplicateLabel "top") ∧
      Agree (replay [⟨"end", 2, 4⟩, ⟨"top", 0, 1⟩]) (replay [⟨"top", 0, 1⟩, ⟨"end", 2, 4⟩]) := by
  have hsorted : (replay [⟨"top", 0, 1⟩, ⟨"end", 2, 4⟩, ⟨"top", 4, 10⟩]).sorted =
      [⟨"end", 2, 4⟩, ⟨"top", 0, 1⟩] := sorted_eq (.refl _) (by decide)
  refine ⟨(replay_keepsFirst _).1.find? "top", hsorted, (replay_keepsFirst _).2.1 _, ?_⟩
  exact (replay_keepsFirst _).2.2.2 _ (List.Perm.swap _ _ _) (by decide)

end LabelTable

end PioKit
