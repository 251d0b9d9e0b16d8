import PioKit.Proofs.Collection
import PioKit.Proofs.Lines

/-!
# Raw lines and what is left of them

The raw lines of a text are the pieces between its line feeds. Of a raw line only what `strip` leaves
of it counts, and that depends neither on blanks at its ends nor on its comment. In particular a
carriage return before a line feed is one more blank at the end, and the empty piece after the last
line feed is one more blank line: `lines_eq_linesFrom` reads the lines of a text off its raw lines
without a case for either.
-/

namespace PioKit

namespace Text

variable {front back cs : List Char}

theorem ne_semicolon_of_isBlank {c : Char} (h : isBlank c = true) : c ≠ ';' := by
  rintro rfl
  exact absurd h (by decide)

theorem trim_blanks_append (h : ∀ c ∈ front, isBlank c = true) (cs : List Char) :
    trim (front ++ cs) = trim cs := by
  rw [trim, List.dropWhile_append_of_pos h, trim]

theorem trim_append_blanks (h : ∀ c ∈ back, isBlank c = true) (cs : List Char) :
    trim (cs ++ back) = trim cs := by
  by_cases hcs : ∀ c ∈ cs, isBlank c = true
  · have hall : ∀ c ∈ cs ++ back, isBlank c = true := List.forall_mem_append.mpr ⟨hcs, h⟩
    rw [trim_eq_nil_iff.mpr hall, trim_eq_nil_iff.mpr hcs]
  · have hne : ¬ (cs.dropWhile isBlank).isEmpty = true := by
      rw [List.isEmpty_iff, List.dropWhile_eq_nil_iff]
      exact hcs
    have hrev : ∀ c ∈ back.reverse, isBlank c = true := fun c hc => h c (List.mem_reverse.mp hc)
    rw [trim, List.dropWhile_append, if_neg hne, dropEndWhile, List.reverse_append,
      List.dropWhile_append_of_pos hrev]
    rfl

/-- A text is its trimmed part with blanks around it. -/
theorem exists_blanks_around_trim (cs : List Char) :
    ∃ front back, (∀ c ∈ front, isBlank c = true) ∧ (∀ c ∈ back, isBlank c = true) ∧
      cs = front ++ trim cs ++ back := by
  have hfront : ∀ c ∈ cs.takeWhile isBlank, isBlank c = true := fun c => List.mem_takeWhile_imp
  have hback : ∀ c ∈ ((cs.dropWhile isBlank).reverse.takeWhile isBlank).reverse,
      isBlank c = true := fun c hc => List.mem_takeWhile_imp (List.mem_reverse.mp hc)
  refine ⟨_, _, hfront, hback, ?_⟩
  have hsplit : trim cs ++ ((cs.dropWhile isBlank).reverse.takeWhile isBlank).reverse =
      cs.dropWhile isBlank := by
    rw [trim, dropEndWhile, ← List.reverse_append, List.takeWhile_append_dropWhile,
      List.reverse_reverse]
  rw [List.append_assoc, hsplit, List.takeWhile_append_dropWhile]

end Text

namespace Source

open Text (isBlank trim)

/-! ## What is left of a raw line -/

section Strip

variable {front back raw : List Char}

theorem withoutComment_append_of_not_mem (h : ';' ∉ front) (cs : List Char) :
    withoutComment (front ++ cs) = front ++ withoutComment cs := by
  apply List.takeWhile_append_of_pos
  intro c hc
  simpa using fun heq : c = ';' => h (heq ▸ hc)

theorem withoutComment_append_semicolon (raw comment : List Char) :
    withoutComment (raw ++ ';' :: comment) = withoutComment raw := by
  by_cases h : ';' ∈ raw
  · obtain ⟨l, r, rfl, hl⟩ := List.eq_append_cons_of_mem h
    rw [List.append_assoc, withoutComment_append_of_not_mem hl,
      withoutComment_append_of_not_mem hl]
    simp [withoutComment]
  · have hself : withoutComment raw = raw := by
      simpa [withoutComment] using withoutComment_append_of_not_mem h []
    rw [withoutComment_append_of_not_mem h, hself]
    simp [withoutComment]

theorem semicolon_not_mem_of_blanks (h : ∀ c ∈ front, isBlank c = true) : ';' ∉ front :=
  fun hmem => Text.ne_semicolon_of_isBlank (h ';' hmem) rfl

/-- Blanks at the end of a raw line stay at the end, or they belong to its comment. -/
theorem trim_withoutComment_append_blanks (h : ∀ c ∈ back, isBlank c = true) (raw : List Char) :
    trim (withoutComment (raw ++ back)) = trim (withoutComment raw) := by
  by_cases hmem : ';' ∈ raw
  · obtain ⟨l, r, rfl, hl⟩ := List.eq_append_cons_of_mem hmem
    rw [List.append_assoc, List.cons_append, withoutComment_append_semicolon,
      withoutComment_append_semicolon]
  · have hback : withoutComment back = back := by
      simpa [withoutComment] using
        withoutComment_append_of_not_mem (semicolon_not_mem_of_blanks h) []
    have hraw : withoutComment raw = raw := by
      simpa [withoutComment] using withoutComment_append_of_not_mem hmem []
    rw [withoutComment_append_of_not_mem hmem, hback, hraw, Text.trim_append_blanks h]

/-- Trimming a raw line before its comment is cut off makes no difference. -/
theorem strip_eq_trim_withoutComment (raw : List Char) :
    strip raw = trim (withoutComment raw) := by
  obtain ⟨front, back, hfront, hback, hraw⟩ := Text.exists_blanks_around_trim raw
  calc
    strip raw = trim (withoutComment (trim raw)) := rfl
    _ = trim (withoutComment (trim raw ++ back)) :=
      (trim_withoutComment_append_blanks hback (trim raw)).symm
    _ = trim (front ++ withoutComment (trim raw ++ back)) :=
      (Text.trim_blanks_append hfront _).symm
    _ = trim (withoutComment (front ++ (trim raw ++ back))) := by
      rw [withoutComment_append_of_not_mem (semicolon_not_mem_of_blanks hfront)]
    _ = trim (withoutComment raw) := by
      rw [← List.append_assoc, ← hraw]

theorem strip_blanks_append (h : ∀ c ∈ front, isBlank c = true) (raw : List Char) :
    strip (front ++ raw) = strip raw := by
  rw [strip_eq_trim_withoutComment,
    withoutComment_append_of_not_mem (semicolon_not_mem_of_blanks h), Text.trim_blanks_append h,
    strip_eq_trim_withoutComment]

theorem strip_append_blanks (h : ∀ c ∈ back, isBlank c = true) (raw : List Char) :
    strip (raw ++ back) = strip raw := by
  rw [strip_eq_trim_withoutComment, trim_withoutComment_append_blanks h,
    strip_eq_trim_withoutComment]

theorem strip_append_comment (raw comment : List Char) :
    strip (raw ++ ';' :: comment) = strip raw := by
  rw [strip_eq_trim_withoutComment, withoutComment_append_semicolon, strip_eq_trim_withoutComment]

theorem strip_append_return (raw : List Char) : strip (raw ++ ['\r']) = strip raw := by
  have hreturn : ∀ c ∈ ['\r'], isBlank c = true := List.forall_mem_singleton.mpr rfl
  exact strip_append_blanks hreturn raw

theorem strip_chomp (raw : List Char) : strip (Text.chomp '\r' raw) = strip raw := by
  by_cases h : raw.getLast? = some '\r'
  · obtain ⟨init, rfl⟩ := List.getLast?_eq_some_iff.mp h
    rw [Text.chomp_append_mark, strip_append_return]
  · rw [Text.chomp_of_getLast? h]

theorem ofRaw?_congr {raw raw' : List Char} (h : strip raw = strip raw') (number : Nat) :
    Line.ofRaw? raw number = Line.ofRaw? raw' number := by
  rw [Line.ofRaw?, h, Line.ofRaw?]

theorem ofRaw?_eq_none_iff {number : Nat} : Line.ofRaw? raw number = none ↔ strip raw = [] := by
  by_cases h : strip raw = []
  · simp [Line.ofRaw?, h]
  · obtain ⟨line, hline⟩ : ∃ line, Line.ofRaw? raw number = some line :=
      ⟨_, Line.ofRaw?_eq_some_iff.mpr ⟨h, rfl⟩⟩
    simp [hline, h]

end Strip

/-! ## The raw lines of a text -/

/-- The parts of a text between its line feeds. -/
def rawLines (text : String) : List (List Char) :=
  text.toList.splitOn '\n'

/-- What is left of raw lines that are numbered from `start` on. -/
def linesFrom (start : Nat) (raws : List (List Char)) : List Line :=
  (raws.zipIdx start).filterMap fun (raw, number) => Line.ofRaw? raw number

@[simp] theorem linesFrom_nil (start : Nat) : linesFrom start [] = [] := rfl

theorem linesFrom_cons (start : Nat) (raw : List Char) (raws : List (List Char)) :
    linesFrom start (raw :: raws) =
      (Line.ofRaw? raw start).toList ++ linesFrom (start + 1) raws := by
  rw [linesFrom, List.zipIdx_cons, List.filterMap_cons]
  cases h : Line.ofRaw? raw start <;> simp only [h] <;> rfl

theorem linesFrom_append (start : Nat) (before after : List (List Char)) :
    linesFrom start (before ++ after) =
      linesFrom start before ++ linesFrom (start + before.length) after := by
  rw [linesFrom, List.zipIdx_append, List.filterMap_append]
  rfl

theorem linesFrom_map {f : List Char → List Char} (h : ∀ raw, strip (f raw) = strip raw)
    (start : Nat) (raws : List (List Char)) :
    linesFrom start (raws.map f) = linesFrom start raws := by
  induction raws generalizing start with
  | nil => rfl
  | cons raw raws ih =>
    rw [List.map_cons, linesFrom_cons, linesFrom_cons, ih, ofRaw?_congr (h raw)]

theorem lines_eq_linesFrom (text : String) : lines text = linesFrom 1 (rawLines text) := by
  have hne : rawLines text ≠ [] := List.splitOnP_ne_nil _ _
  have hsplit := List.dropLast_append_getLast hne
  generalize (rawLines text).getLast hne = last at hsplit
  generalize (rawLines text).dropLast = init at hsplit
  have hlines : Text.lines '\n' '\r' text.toList =
      init.map (Text.chomp '\r') ++ if last.isEmpty then [] else [last] := by
    show (rawLines text).dropLast.map (Text.chomp '\r') ++
      (if ((rawLines text).getLastD []).isEmpty then [] else [(rawLines text).getLastD []]) = _
    rw [← hsplit]
    simp
  rw [lines_eq_filterMap]
  show linesFrom 1 (Text.lines '\n' '\r' text.toList) = _
  rw [hlines, ← hsplit, linesFrom_append, linesFrom_append, linesFrom_map strip_chomp,
    List.length_map]
  cases last with
  | nil => rfl
  | cons c cs => rfl

/-- Every line comes from one raw line, whose place gives it its number. -/
theorem exists_raw_of_mem_linesFrom {start : Nat} {raws : List (List Char)} {line : Line}
    (h : line ∈ linesFrom start raws) :
    ∃ before raw after, raws = before ++ raw :: after ∧ line.number = start + before.length ∧
      Line.ofRaw? raw line.number = some line := by
  induction raws generalizing start with
  | nil => cases h
  | cons raw raws ih =>
    rw [linesFrom_cons, List.mem_append, Option.mem_toList] at h
    rcases h with h | h
    · have hline := (Line.ofRaw?_eq_some_iff.mp h).2
      have hnumber : line.number = start := by rw [hline]
      refine ⟨[], raw, raws, rfl, by simpa using hnumber, ?_⟩
      rw [hnumber]
      exact h
    · obtain ⟨before, found, after, rfl, hnumber, hfound⟩ := ih h
      refine ⟨raw :: before, found, after, rfl, ?_, hfound⟩
      rw [hnumber, List.length_cons]
      omega

theorem number_bounds_of_mem_linesFrom {start : Nat} {raws : List (List Char)} {line : Line}
    (h : line ∈ linesFrom start raws) :
    start ≤ line.number ∧ line.number < start + raws.length := by
  obtain ⟨before, raw, after, rfl, hnumber, -⟩ := exists_raw_of_mem_linesFrom h
  rw [List.length_append, List.length_cons]
  omega

/-- The lines of a text are numbered in ascending order. -/
theorem pairwise_number_linesFrom (start : Nat) (raws : List (List Char)) :
    (linesFrom start raws).Pairwise fun earlier later => earlier.number < later.number := by
  induction raws generalizing start with
  | nil => exact List.Pairwise.nil
  | cons raw raws ih =>
    rw [linesFrom_cons]
    refine List.pairwise_append.mpr ⟨?_, ih (start + 1), ?_⟩
    · cases Line.ofRaw? raw start <;> simp
    · intro earlier hearlier later hlater
      have hline := (Line.ofRaw?_eq_some_iff.mp (Option.mem_toList.mp hearlier)).2
      have hbound := (number_bounds_of_mem_linesFrom hlater).1
      rw [hline]
      exact hbound

/-- No two lines of a text have the same number. -/
theorem eq_of_number_eq {text : String} {line line' : Line} (h : line ∈ lines text)
    (h' : line' ∈ lines text) (hnumber : line.number = line'.number) : line = line' := by
  rw [lines_eq_linesFrom] at h h'
  obtain ⟨before, raw, after, hraws, hplace, hraw⟩ := exists_raw_of_mem_linesFrom h
  obtain ⟨before', raw', after', hraws', hplace', hraw'⟩ := exists_raw_of_mem_linesFrom h'
  have hlength : before.length = before'.length := by omega
  obtain ⟨-, hcons⟩ := List.append_inj (hraws.symm.trans hraws') hlength
  cases hcons
  rw [hnumber, hraw'] at hraw
  exact (Option.some.inj hraw).symm

theorem length_linesFrom_le (start : Nat) (raws : List (List Char)) :
    (linesFrom start raws).length ≤ raws.length := by
  calc
    (linesFrom start raws).length ≤ (raws.zipIdx start).length := List.length_filterMap_le _ _
    _ = raws.length := List.length_zipIdx

theorem feed_not_mem_of_mem_rawLines {text : String} {raw : List Char} (h : raw ∈ rawLines text) :
    '\n' ∉ raw := by
  unfold rawLines at h
  generalize text.toList = cs at h
  -- the first piece grows to the left until the next line feed in front of it
  induction cs generalizing raw with
  | nil =>
    rw [List.splitOn_nil, List.mem_singleton] at h
    rw [h]
    exact List.not_mem_nil
  | cons c cs ih =>
    rw [List.splitOn_eq_splitOnP, List.splitOnP_cons_eq_if_modifyHead,
      ← List.splitOn_eq_splitOnP] at h
    by_cases hc : c = '\n'
    · rw [if_pos (by simpa using hc), List.mem_cons] at h
      rcases h with rfl | h
      · exact List.not_mem_nil
      · exact ih h
    · rw [if_neg (by simpa using hc)] at h
      cases hpieces : cs.splitOn '\n' with
      | nil => exact absurd hpieces (List.splitOnP_ne_nil _ _)
      | cons piece pieces =>
        rw [hpieces, List.modifyHead_cons, List.mem_cons] at h
        rcases h with rfl | h
        · have hpiece : '\n' ∉ piece := ih (hpieces ▸ List.mem_cons_self)
          rw [List.mem_cons]
          rintro (heq | hmem)
          · exact hc heq.symm
          · exact hpiece hmem
        · exact ih (hpieces ▸ List.mem_cons_of_mem _ h)

theorem length_rawLines_le (text : String) : (rawLines text).length ≤ text.length + 1 := by
  rw [rawLines, ← String.length_toList]
  generalize text.toList = cs
  induction cs with
  | nil => simp
  | cons c cs ih =>
    rw [List.splitOn_eq_splitOnP, List.splitOnP_cons_eq_if_modifyHead,
      ← List.splitOn_eq_splitOnP, List.length_cons]
    split
    · rw [List.length_cons]
      omega
    · rw [List.length_modifyHead]
      omega

end Source

end PioKit
