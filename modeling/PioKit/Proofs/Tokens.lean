import PioKit.Proofs.RawLines
import PioKit.Source

/-!
# Tokens of a raw line

The fields of a list do not depend on the separators at its ends, so a raw line and what is left of it
have the same tokens. `replaceField` exchanges one field of a list and leaves all separators where
they are; `replaceToken` does the same to a raw line with a comment.
-/

namespace PioKit

namespace Text

variable {α : Type} {p : α → Bool} {seps part rest l new : List α} {n : Nat}

theorem fields_cons_of_pos {a : α} (h : p a = true) (l : List α) :
    fields p (a :: l) = fields p l :=
  fields_append_cons h [] l

theorem fields_separators_append (h : ∀ a ∈ seps, p a = true) (l : List α) :
    fields p (seps ++ l) = fields p l := by
  induction seps with
  | nil => rfl
  | cons a seps ih =>
    rw [List.forall_mem_cons] at h
    rw [List.cons_append, fields_cons_of_pos h.1, ih h.2]

theorem fields_of_separators (h : ∀ a ∈ seps, p a = true) : fields p seps = [] := by
  have hseps := fields_separators_append h []
  rwa [List.append_nil, fields_nil] at hseps

theorem fields_append_separators (h : ∀ a ∈ seps, p a = true) (l : List α) :
    fields p (l ++ seps) = fields p l := by
  cases seps with
  | nil => rw [List.append_nil]
  | cons a seps =>
    rw [List.forall_mem_cons] at h
    rw [fields_append_cons h.1, fields_of_separators h.2, List.append_nil]

/-- A field ends where the list ends or a separator follows. -/
theorem fields_part_append (hpart : ∀ a ∈ part, p a = false) (hne : part ≠ [])
    (hrest : ∀ a ∈ rest.head?, p a = true) :
    fields p (part ++ rest) = part :: fields p rest := by
  have hone : fields p part = [part] := by
    have hempty : part.isEmpty = false := by simpa using hne
    simp [fields, List.splitOnP_eq_singleton hpart, hempty]
  cases rest with
  | nil => rw [List.append_nil, hone, fields_nil]
  | cons a rest =>
    have ha : p a = true := hrest a rfl
    rw [fields_append_cons ha, hone, fields_cons_of_pos ha]
    rfl

/-- The first field of a list. -/
def firstField (p : α → Bool) (l : List α) : List α :=
  (l.dropWhile p).takeWhile (!p ·)

/-- What stands behind the first field of a list. -/
def afterField (p : α → Bool) (l : List α) : List α :=
  (l.dropWhile p).dropWhile (!p ·)

theorem separators_append_firstField (p : α → Bool) (l : List α) :
    l.takeWhile p ++ (firstField p l ++ afterField p l) = l := by
  rw [firstField, afterField, List.takeWhile_append_dropWhile, List.takeWhile_append_dropWhile]

theorem of_mem_separators {a : α} (h : a ∈ l.takeWhile p) : p a = true :=
  List.mem_takeWhile_imp h

theorem of_mem_firstField {a : α} (h : a ∈ firstField p l) : p a = false := by
  have hnot := List.mem_takeWhile_imp h
  simpa using hnot

theorem of_mem_head?_afterField {a : α} (h : a ∈ (afterField p l).head?) : p a = true := by
  have hnot := List.head?_dropWhile_not (!p ·) (l.dropWhile p)
  rw [afterField] at h
  rw [h] at hnot
  simpa using hnot

theorem firstField_eq_nil_iff : firstField p l = [] ↔ ∀ a ∈ l, p a = true := by
  constructor
  · intro hnil
    cases hrest : l.dropWhile p with
    | nil => exact List.dropWhile_eq_nil_iff.mp hrest
    | cons a rest =>
      have ha : p a = false := by
        have hhead := List.head?_dropWhile_not p l
        rw [hrest] at hhead
        exact hhead
      rw [firstField, hrest, List.takeWhile_cons_of_pos (by simpa using ha)] at hnil
      cases hnil
  · intro h
    rw [firstField, List.dropWhile_eq_nil_iff.mpr h]
    rfl

theorem firstField_ne_nil (h : fields p l ≠ []) : firstField p l ≠ [] :=
  fun hnil => h (fields_of_separators (firstField_eq_nil_iff.mp hnil))

theorem fields_eq_firstField_cons (h : firstField p l ≠ []) :
    fields p l = firstField p l :: fields p (afterField p l) := by
  calc
    fields p l = fields p (l.takeWhile p ++ (firstField p l ++ afterField p l)) := by
      rw [separators_append_firstField]
    _ = fields p (firstField p l ++ afterField p l) :=
      fields_separators_append (fun _ => of_mem_separators) _
    _ = firstField p l :: fields p (afterField p l) :=
      fields_part_append (fun _ => of_mem_firstField) h fun _ => of_mem_head?_afterField

theorem fields_eq_cons (h : fields p l ≠ []) :
    fields p l = firstField p l :: fields p (afterField p l) :=
  fields_eq_firstField_cons (firstField_ne_nil h)

/-- A list without fields consists of separators. -/
theorem fields_eq_nil_iff : fields p l = [] ↔ ∀ a ∈ l, p a = true := by
  constructor
  · intro h
    rw [← firstField_eq_nil_iff]
    by_contra hne
    rw [fields_eq_firstField_cons hne] at h
    cases h
  · exact fields_of_separators

/-- The list with field number `n` replaced and all separators kept. -/
def replaceField (p : α → Bool) (new : List α) : Nat → List α → List α
  | 0, l => l.takeWhile p ++ (new ++ afterField p l)
  | n + 1, l => l.takeWhile p ++ (firstField p l ++ replaceField p new n (afterField p l))

theorem head?_replaceField {a : α} (h : p a = true) (n : Nat) (l new : List α) :
    (replaceField p new n (a :: l)).head? = some a := by
  cases n <;> simp [replaceField, h]

theorem fields_replaceField (hnew : ∀ a ∈ new, p a = false) (hne : new ≠ [])
    (h : n < (fields p l).length) :
    fields p (replaceField p new n l) = (fields p l).set n new := by
  induction n generalizing l with
  | zero =>
    rw [replaceField, fields_separators_append fun _ => of_mem_separators,
      fields_part_append hnew hne fun _ => of_mem_head?_afterField,
      fields_eq_cons (List.ne_nil_of_length_pos h), List.set_cons_zero]
  | succ n ih =>
    have hfields : fields p l ≠ [] := List.ne_nil_of_length_pos (Nat.zero_lt_of_lt h)
    rw [fields_eq_cons hfields, List.length_cons, Nat.succ_lt_succ_iff] at h
    -- another field follows, so the rest begins with a separator, and this one stays
    have hhead : ∀ a ∈ (replaceField p new n (afterField p l)).head?, p a = true := by
      intro a ha
      cases hrest : afterField p l with
      | nil =>
        rw [hrest] at h
        cases h
      | cons b rest =>
        have hb : p b = true := of_mem_head?_afterField (l := l) (by rw [hrest]; rfl)
        rw [hrest, head?_replaceField hb] at ha
        cases ha
        exact hb
    rw [replaceField, fields_separators_append fun _ => of_mem_separators,
      fields_part_append (fun _ => of_mem_firstField) (firstField_ne_nil hfields) hhead, ih h,
      fields_eq_cons hfields, List.set_cons_succ]

/-- Replacing a field exchanges one stretch of the list. What stands before it holds the fields before
it. -/
theorem exists_replaceField_eq (h : n < (fields p l).length) :
    ∃ left part right, l = left ++ part ++ right ∧ (0 < n → ∃ a ∈ left, p a = false) ∧
      ∀ new, replaceField p new n l = left ++ new ++ right := by
  induction n generalizing l with
  | zero =>
    refine ⟨l.takeWhile p, firstField p l, afterField p l, ?_, nofun, fun new => ?_⟩
    · rw [List.append_assoc, separators_append_firstField]
    · rw [replaceField, List.append_assoc]
  | succ n ih =>
    have hfields : fields p l ≠ [] := List.ne_nil_of_length_pos (Nat.zero_lt_of_lt h)
    rw [fields_eq_cons hfields, List.length_cons, Nat.succ_lt_succ_iff] at h
    obtain ⟨left, part, right, hrest, -, hreplace⟩ := ih h
    obtain ⟨a, ha⟩ := List.exists_mem_of_ne_nil _ (firstField_ne_nil hfields)
    refine ⟨l.takeWhile p ++ firstField p l ++ left, part, right, ?_,
      fun _ => ⟨a, by simp [ha], of_mem_firstField ha⟩, fun new => ?_⟩
    · conv_lhs => rw [← separators_append_firstField p l, hrest]
      simp only [List.append_assoc]
    · rw [replaceField, hreplace]
      simp only [List.append_assoc]

/-! ## The ends of a trimmed text -/

theorem isBlank_head?_trim {cs : List Char} : ∀ c ∈ (trim cs).head?, isBlank c = false := by
  intro c hc
  have hprefix : trim cs <+: cs.dropWhile isBlank := List.rdropWhile_prefix _ _
  obtain ⟨back, hback⟩ := hprefix
  have hhead : (cs.dropWhile isBlank).head? = some c := by
    rw [← hback, List.head?_append, hc]
    rfl
  have hnot := List.head?_dropWhile_not isBlank cs
  rwa [hhead] at hnot

theorem isBlank_getLast?_trim {cs : List Char} :
    ∀ c ∈ (trim cs).getLast?, isBlank c = false := by
  intro c hc
  have hne : trim cs ≠ [] := by
    intro hnil
    rw [hnil] at hc
    cases hc
  have hlast := List.rdropWhile_last_not isBlank (cs.dropWhile isBlank) hne
  have heq : (trim cs).getLast hne = c := by
    rw [List.getLast?_eq_some_getLast hne] at hc
    exact Option.some.inj hc
  have hfalse : ¬ isBlank ((trim cs).getLast hne) = true := hlast
  rw [heq] at hfalse
  exact eq_false_of_ne_true hfalse

/-- A trimmed text begins with the first character of the text that is not blank. -/
theorem head?_trim (cs : List Char) : (trim cs).head? = cs.find? (!isBlank ·) := by
  obtain ⟨front, back, hfront, hback, hcs⟩ := exists_blanks_around_trim cs
  have hnone : front.find? (!isBlank ·) = none := by simpa using hfront
  have hnone' : back.find? (!isBlank ·) = none := by simpa using hback
  conv_rhs => rw [hcs, List.find?_append, List.find?_append, hnone, hnone']
  cases htrim : trim cs with
  | nil => rfl
  | cons c rest =>
    have hc : isBlank c = false := isBlank_head?_trim c (by rw [htrim]; rfl)
    simp [hc]

/-- A trimmed text ends with the last character of the text that is not blank. -/
theorem getLast?_trim (cs : List Char) : (trim cs).getLast? = cs.reverse.find? (!isBlank ·) := by
  obtain ⟨front, back, hfront, hback, hcs⟩ := exists_blanks_around_trim cs
  have hnone : front.reverse.find? (!isBlank ·) = none := by simpa using hfront
  have hnone' : back.reverse.find? (!isBlank ·) = none := by simpa using hback
  conv_rhs => rw [hcs, List.reverse_append, List.reverse_append, List.find?_append,
    List.find?_append, hnone, hnone']
  rcases List.eq_nil_or_concat (trim cs) with htrim | ⟨init, c, htrim⟩
  · rw [htrim]
    rfl
  · rw [List.concat_eq_append] at htrim
    have hc : isBlank c = false := isBlank_getLast?_trim c (by rw [htrim]; simp)
    simp [htrim, hc]

end Text

namespace Source

open Text (isBlank trim)

/-! ## Tokens -/

theorem isSeparator_eq_true_iff {c : Char} : isSeparator c = true ↔ isBlank c = true ∨ c = ',' := by
  rw [isSeparator, Bool.or_eq_true, beq_iff_eq]

theorem isSeparator_eq_false_iff {c : Char} :
    isSeparator c = false ↔ isBlank c = false ∧ c ≠ ',' := by
  rw [isSeparator, Bool.or_eq_false_iff, beq_eq_false_iff_ne]

theorem isSeparator_of_isBlank {c : Char} (h : isBlank c = true) : isSeparator c = true :=
  isSeparator_eq_true_iff.mpr (.inl h)

theorem fields_trim (cs : List Char) :
    Text.fields isSeparator (trim cs) = Text.fields isSeparator cs := by
  obtain ⟨front, back, hfront, hback, hcs⟩ := Text.exists_blanks_around_trim cs
  conv_rhs => rw [hcs, Text.fields_append_separators fun c hc => isSeparator_of_isBlank (hback c hc),
    Text.fields_separators_append fun c hc => isSeparator_of_isBlank (hfront c hc)]

/-- The tokens of a raw line are those of the part before its comment. -/
theorem tokens_strip (raw : List Char) :
    tokens (String.ofList (strip raw)) =
      (Text.fields isSeparator (withoutComment raw)).map String.ofList := by
  rw [tokens, String.toList_ofList, strip_eq_trim_withoutComment, fields_trim]

/-- The raw line with token number `position` replaced. -/
def replaceToken (position : Nat) (new raw : List Char) : List Char :=
  Text.replaceField isSeparator new position (withoutComment raw) ++ raw.dropWhile (· != ';')

theorem semicolon_not_mem_withoutComment (raw : List Char) : ';' ∉ withoutComment raw := by
  intro hmem
  have hne := List.mem_takeWhile_imp hmem
  simp at hne

theorem withoutComment_append_dropWhile {code : List Char} (h : ';' ∉ code) (raw : List Char) :
    withoutComment (code ++ raw.dropWhile (· != ';')) = code := by
  have hnil : withoutComment (raw.dropWhile (· != ';')) = [] := by
    cases hrest : raw.dropWhile (· != ';') with
    | nil => rfl
    | cons c rest =>
      have hc := List.head?_dropWhile_not (· != ';') raw
      rw [hrest] at hc
      have hc' : (c != ';') = false := hc
      simp [withoutComment, hc']
  rw [withoutComment_append_of_not_mem h, hnil, List.append_nil]

section ReplaceToken

variable {raw new : List Char} {position : Nat}

theorem withoutComment_replaceToken (hnew : ';' ∉ new)
    (h : position < (Text.fields isSeparator (withoutComment raw)).length) :
    withoutComment (replaceToken position new raw) =
      Text.replaceField isSeparator new position (withoutComment raw) := by
  obtain ⟨left, part, right, hcode, -, hreplace⟩ := Text.exists_replaceField_eq h
  apply withoutComment_append_dropWhile
  have hnot := semicolon_not_mem_withoutComment raw
  rw [hcode, List.mem_append, List.mem_append] at hnot
  rw [hreplace, List.mem_append, List.mem_append]
  tauto

theorem feed_not_mem_replaceToken (hnew : '\n' ∉ new) (hraw : '\n' ∉ raw)
    (h : position < (Text.fields isSeparator (withoutComment raw)).length) :
    '\n' ∉ replaceToken position new raw := by
  obtain ⟨left, part, right, hcode, -, hreplace⟩ := Text.exists_replaceField_eq h
  have hsplit : withoutComment raw ++ raw.dropWhile (· != ';') = raw :=
    List.takeWhile_append_dropWhile
  rw [← hsplit, hcode] at hraw
  simp only [List.mem_append] at hraw
  rw [replaceToken, hreplace]
  simp only [List.mem_append]
  tauto

theorem tokens_replaceToken (hnew : ∀ c ∈ new, isSeparator c = false ∧ c ≠ ';') (hne : new ≠ [])
    (h : position < (tokens (String.ofList (strip raw))).length) :
    tokens (String.ofList (strip (replaceToken position new raw))) =
      (tokens (String.ofList (strip raw))).set position (String.ofList new) := by
  rw [tokens_strip, List.length_map] at h
  have hcomment : ';' ∉ new := fun hmem => (hnew ';' hmem).2 rfl
  have hfields := Text.fields_replaceField (fun c hc => (hnew c hc).1) hne h
  rw [tokens_strip, tokens_strip, withoutComment_replaceToken hcomment h, hfields, List.map_set]

end ReplaceToken

end Source

end PioKit
