import PioKit.Fault

/-!
# Labels

A label names the index of the instruction that follows it. The table of labels is write-once: a
name keeps the meaning of its first definition, and a second definition is refused. That no name
occurs twice is part of the type.
-/

namespace PioKit

/-- A name for an instruction index. -/
structure Label where
  /-- The name. -/
  name : String
  /-- The index of the instruction that the name stands for. -/
  index : Nat
  /-- The number of the line that defines it. -/
  line : Nat
  deriving DecidableEq, Repr

/-- The labels of a program. -/
structure LabelTable where
  /-- The labels, the latest definition first. -/
  entries : List Label
  /-- No two entries share a name. -/
  distinct : (entries.map Label.name).Nodup
  deriving DecidableEq, Repr

namespace LabelTable

/-- The table without labels. -/
def empty : LabelTable where
  entries := []
  distinct := List.nodup_nil

/-- The label of the given name. -/
def find? (table : LabelTable) (name : String) : Option Label :=
  table.entries.find? fun label => label.name == name

/-- The instruction index that a name stands for. -/
def address? (table : LabelTable) (name : String) : Option Nat :=
  (table.find? name).map Label.index

/-- A name that is not found is not among the names of the entries. -/
theorem not_mem_of_find?_eq_none {table : LabelTable} {name : String}
    (h : table.find? name = none) : name ∉ table.entries.map Label.name := by
  simp only [find?, List.find?_eq_none, beq_iff_eq] at h
  simp only [List.mem_map, not_exists, not_and]
  exact h

/-- Adds a label, unless its name is taken. -/
def define (table : LabelTable) (label : Label) : Except Fault LabelTable :=
  match h : table.find? label.name with
  | some _ => .error (.duplicateLabel label.name)
  | none => .ok {
      entries := label :: table.entries
      distinct := List.nodup_cons.mpr ⟨not_mem_of_find?_eq_none h, table.distinct⟩ }

/-- A new name is found as it was defined, and every other name as before. -/
theorem find?_of_define {table table' : LabelTable} {label : Label}
    (h : table.define label = .ok table') (name : String) :
    table'.find? name = if label.name = name then some label else table.find? name := by
  unfold define at h
  split at h
  · cases h
  · cases h
    simp only [find?, List.find?_cons]
    by_cases hn : label.name = name
    · simp [hn]
    · have hb : (label.name == name) = false := by simpa using hn
      simp only [hb, if_neg hn]

/-- A label is refused exactly if its name is taken. -/
theorem define_eq_error_iff {table : LabelTable} {label : Label} {fault : Fault} :
    table.define label = .error fault ↔
      (table.find? label.name).isSome ∧ fault = .duplicateLabel label.name := by
  unfold define
  split
  next found h => simp [h, eq_comm]
  next h => simp [h]

/-- The number of labels. -/
def size (table : LabelTable) : Nat :=
  table.entries.length

/-- There is no label. -/
def isEmpty (table : LabelTable) : Bool :=
  table.entries.isEmpty

/-- The labels in the order of their names. -/
def sorted (table : LabelTable) : List Label :=
  table.entries.mergeSort fun a b => a.name ≤ b.name

end LabelTable

end PioKit
