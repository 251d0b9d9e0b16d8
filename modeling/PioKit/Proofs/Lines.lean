import Mathlib.Data.List.Basic
import Mathlib.Data.List.DropRight
import PioKit.WordFile.Basic

/-!
# Lines of a text and of its bytes

A word file is cut into lines while it is still bytes, and each line is decoded on its own. Since no
byte of a longer character is below 0x80, this finds the same lines as cutting the text itself:
`byteLines_encode`. What a reader of a written text sees is then `byteLines_encode_flatMap`.
-/

namespace PioKit

namespace Text

/-! ## Cutting at line ends -/

section Cutting

variable {α : Type} [BEq α] [LawfulBEq α]

theorem splitOn_of_not_mem {mark : α} {l : List α} (h : mark ∉ l) : l.splitOn mark = [l] := by
  apply List.splitOnP_eq_singleton
  intro a ha
  exact beq_false_of_ne fun heq => h (heq ▸ ha)

theorem splitOn_append_cons (mark : α) (l r : List α) :
    (l ++ mark :: r).splitOn mark = l.splitOn mark ++ r.splitOn mark :=
  List.splitOnP_append_cons l r BEq.rfl

theorem chomp_of_getLast? {mark : α} {l : List α} (h : l.getLast? ≠ some mark) :
    chomp mark l = l := by
  unfold chomp
  rw [if_neg]
  simpa using h

@[simp] theorem chomp_append_mark (mark : α) (l : List α) : chomp mark (l ++ [mark]) = l := by
  simp [chomp]

/-- A text without a line end is one line, unless it is empty. -/
theorem lines_of_not_mem {feed : α} {l : List α} (h : feed ∉ l) (ret : α) :
    lines feed ret l = if l.isEmpty then [] else [l] := by
  simp [lines, splitOn_of_not_mem h]

/-- The first line ends at the first `feed`. -/
theorem lines_append_feed {feed : α} {l : List α} (h : feed ∉ l) (ret : α) (rest : List α) :
    lines feed ret (l ++ feed :: rest) = chomp ret l :: lines feed ret rest := by
  have hsplit : (l ++ feed :: rest).splitOn feed = l :: rest.splitOn feed := by
    rw [splitOn_append_cons, splitOn_of_not_mem h, List.singleton_append]
  obtain ⟨piece, pieces, hrest⟩ : ∃ piece pieces, rest.splitOn feed = piece :: pieces :=
    List.exists_cons_of_ne_nil (List.splitOnP_ne_nil _ _)
  simp [lines, hsplit, hrest]

/-- Lines that are each written with their line end are the lines of the text. -/
theorem lines_flatMap {feed : α} {ls : List (List α)} (h : ∀ l ∈ ls, feed ∉ l) (ret : α) :
    lines feed ret (ls.flatMap (· ++ [feed])) = ls.map (chomp ret) := by
  induction ls with
  | nil => rfl
  | cons l ls ih =>
    rw [List.forall_mem_cons] at h
    rw [List.flatMap_cons, List.append_assoc, List.singleton_append, lines_append_feed h.1,
      ih h.2, List.map_cons]

end Cutting

/-! ## Blanks at the ends -/

/-- Between the space and the next control character beyond ASCII there is no blank. -/
theorem isBlank_of_toNat {c : Char} (hlow : 0x20 < c.toNat) (hhigh : c.toNat < 0x85) :
    isBlank c = false := by
  have hcontrol : ¬ c.toNat ≤ 0x0D := by omega
  have hspace : ¬ c.toNat ≤ 0x20 := by omega
  have hnext : c.toNat ≤ 0x85 := by omega
  have hgap : ¬ 0x85 ≤ c.toNat := by omega
  simp [isBlank, blankRanges, Ranges.covers, hcontrol, hspace, hnext, hgap]

theorem trim_eq_nil_iff {cs : List Char} : trim cs = [] ↔ ∀ c ∈ cs, isBlank c = true := by
  constructor
  · intro h
    have hall : ∀ c ∈ cs.dropWhile isBlank, isBlank c = true := List.rdropWhile_eq_nil_iff.mp h
    -- what is left in front starts with no blank, so nothing is left
    apply List.dropWhile_eq_nil_iff.mp
    by_contra hne
    have hhead := List.head_dropWhile_not isBlank hne
    rw [hall _ (List.head_mem hne)] at hhead
    cases hhead
  · intro h
    rw [trim, List.dropWhile_eq_nil_iff.mpr h]
    rfl

theorem dropWhile_of_forall_false {α : Type} {p : α → Bool} {l : List α}
    (h : ∀ a ∈ l, p a = false) : l.dropWhile p = l := by
  cases l with
  | nil => rfl
  | cons a l => rw [List.dropWhile_cons, h a List.mem_cons_self, if_neg Bool.false_ne_true]

theorem trim_cons_of_blank {c : Char} (h : isBlank c = true) (cs : List Char) :
    trim (c :: cs) = trim cs := by
  rw [trim, List.dropWhile_cons, if_pos h, trim]

theorem trim_of_forall_false {cs : List Char} (h : ∀ c ∈ cs, isBlank c = false) :
    trim cs = cs := by
  have hrev : ∀ c ∈ cs.reverse, isBlank c = false := fun c hc => h c (List.mem_reverse.mp hc)
  rw [trim, dropWhile_of_forall_false h, dropEndWhile, dropWhile_of_forall_false hrev,
    List.reverse_reverse]

/-! ## Characters and their bytes -/

namespace Utf8

@[simp] theorem encode_nil : encode [] = [] := rfl

@[simp] theorem encode_append (l r : List Char) : encode (l ++ r) = encode l ++ encode r :=
  List.flatMap_append

theorem encode_cons (c : Char) (cs : List Char) :
    encode (c :: cs) = String.utf8EncodeChar c ++ encode cs :=
  List.flatMap_cons

@[simp] theorem decode?_encode (cs : List Char) : decode? (encode cs) = some cs := by
  have hvalid : (encode cs).toByteArray.IsValidUTF8 := (String.ofList cs).isValidUTF8
  have hstring : String.fromUTF8 (encode cs).toByteArray hvalid = String.ofList cs := rfl
  rw [decode?, String.fromUTF8?, dif_pos hvalid, hstring, Option.map_some, String.toList_ofList]

theorem utf8EncodeChar_of_lt {c : Char} (h : c.toNat < 0x80) :
    String.utf8EncodeChar c = [UInt8.ofNat c.toNat] :=
  if_pos (Nat.le_of_lt_succ h)

/-- No byte of a character from 0x80 on could stand for a character below. -/
theorem le_of_mem_utf8EncodeChar {c : Char} (h : 0x80 ≤ c.toNat) {byte : UInt8}
    (hbyte : byte ∈ String.utf8EncodeChar c) : 0x80 ≤ byte.toNat := by
  have hv : ¬ c.val.toNat ≤ 127 := Nat.not_le_of_lt h
  unfold String.utf8EncodeChar at hbyte
  simp only [hv, if_false] at hbyte
  split at hbyte
  · simp only [List.mem_cons, List.not_mem_nil, or_false] at hbyte
    rcases hbyte with rfl | rfl <;> rw [UInt8.toNat_ofNat'] <;> omega
  · split at hbyte
    · simp only [List.mem_cons, List.not_mem_nil, or_false] at hbyte
      rcases hbyte with rfl | rfl | rfl <;> rw [UInt8.toNat_ofNat'] <;> omega
    · simp only [List.mem_cons, List.not_mem_nil, or_false] at hbyte
      rcases hbyte with rfl | rfl | rfl | rfl <;> rw [UInt8.toNat_ofNat'] <;> omega

variable {mark : Char}

/-- The byte of an ASCII character occurs in that character only. -/
theorem eq_of_mem_utf8EncodeChar (hmark : mark.toNat < 0x80) {c : Char}
    (h : UInt8.ofNat mark.toNat ∈ String.utf8EncodeChar c) : c = mark := by
  have hbyte : (UInt8.ofNat mark.toNat).toNat = mark.toNat := by
    rw [UInt8.toNat_ofNat']
    omega
  by_cases hc : c.toNat < 0x80
  · rw [utf8EncodeChar_of_lt hc, List.mem_singleton] at h
    have hnat := congrArg UInt8.toNat h
    rw [hbyte, UInt8.toNat_ofNat'] at hnat
    apply Char.toNat_inj.mp
    omega
  · have hle := le_of_mem_utf8EncodeChar (Nat.le_of_not_lt hc) h
    omega

theorem ofNat_mem_encode_iff (hmark : mark.toNat < 0x80) {cs : List Char} :
    UInt8.ofNat mark.toNat ∈ encode cs ↔ mark ∈ cs := by
  rw [encode, List.mem_flatMap]
  constructor
  · rintro ⟨c, hc, hbyte⟩
    rwa [← eq_of_mem_utf8EncodeChar hmark hbyte]
  · intro hmem
    refine ⟨mark, hmem, ?_⟩
    rw [utf8EncodeChar_of_lt hmark]
    exact List.mem_singleton_self _

/-- Bytes end in the byte of an ASCII character only if the text ends in the character. -/
theorem getLast?_of_getLast?_encode (hmark : mark.toNat < 0x80) {cs : List Char}
    (h : (encode cs).getLast? = some (UInt8.ofNat mark.toNat)) : cs.getLast? = some mark := by
  rcases List.eq_nil_or_concat cs with rfl | ⟨init, c, rfl⟩
  · cases h
  · have hc : String.utf8EncodeChar c ≠ [] := String.utf8EncodeChar_ne_nil
    rw [List.concat_eq_append] at h ⊢
    rw [encode_append, encode_cons, encode_nil, List.append_nil,
      List.getLast?_append_of_ne_nil _ hc] at h
    rw [List.getLast?_concat, eq_of_mem_utf8EncodeChar hmark (List.mem_of_getLast? h)]

theorem chomp_encode (hmark : mark.toNat < 0x80) (cs : List Char) :
    chomp (UInt8.ofNat mark.toNat) (encode cs) = encode (chomp mark cs) := by
  by_cases h : cs.getLast? = some mark
  · obtain ⟨init, rfl⟩ := List.getLast?_eq_some_iff.mp h
    rw [encode_append, encode_cons, encode_nil, List.append_nil, utf8EncodeChar_of_lt hmark,
      chomp_append_mark, chomp_append_mark]
  · rw [chomp_of_getLast? h, chomp_of_getLast?]
    exact fun hlast => h (getLast?_of_getLast?_encode hmark hlast)

end Utf8

end Text

namespace WordFile

open Text

theorem feed_not_mem_encode {cs : List Char} (h : '\n' ∉ cs) : 0x0A ∉ Utf8.encode cs := by
  have hfeed : '\n'.toNat < 0x80 := by decide
  exact fun hmem => h ((Utf8.ofNat_mem_encode_iff hfeed).mp hmem)

theorem chomp_ret_encode (cs : List Char) :
    chomp 0x0D (Utf8.encode cs) = Utf8.encode (chomp '\r' cs) := by
  have hret : '\r'.toNat < 0x80 := by decide
  exact Utf8.chomp_encode hret cs

/-- The lines of the bytes of a text are the bytes of its lines. -/
theorem byteLines_encode (cs : List Char) :
    byteLines (Utf8.encode cs) = (lines '\n' '\r' cs).map Utf8.encode := by
  -- a text is cut at its first line end, so the induction is on its length
  induction hlen : cs.length using Nat.strongRecOn generalizing cs with
  | ind n ih =>
    by_cases hmem : '\n' ∈ cs
    · obtain ⟨l, rest, rfl, hl⟩ := List.eq_append_cons_of_mem hmem
      have hrest : byteLines (Utf8.encode rest) = (lines '\n' '\r' rest).map Utf8.encode := by
        refine ih rest.length ?_ rest rfl
        simp only [List.length_append, List.length_cons] at hlen
        omega
      rw [lines_append_feed hl, List.map_cons, ← hrest, ← chomp_ret_encode, Utf8.encode_append,
        Utf8.encode_cons]
      exact lines_append_feed (feed_not_mem_encode hl) 0x0D (Utf8.encode rest)
    · rw [byteLines, lines_of_not_mem (feed_not_mem_encode hmem), lines_of_not_mem hmem]
      cases cs with
      | nil => rfl
      | cons c cs =>
        have hc : String.utf8EncodeChar c ≠ [] := String.utf8EncodeChar_ne_nil
        simp [Utf8.encode_cons, hc]

/-- Lines that hold no line ends are the lines of the text in which each has one behind it. -/
theorem lines_flatMap_of_forall_ne {ls : List (List Char)}
    (h : ∀ l ∈ ls, ∀ c ∈ l, c ≠ '\n' ∧ c ≠ '\r') :
    lines '\n' '\r' (ls.flatMap (· ++ ['\n'])) = ls := by
  have hfeed : ∀ l ∈ ls, '\n' ∉ l := fun l hl hmem => (h l hl '\n' hmem).1 rfl
  have hchomp : ∀ l ∈ ls, chomp '\r' l = id l := fun l hl =>
    chomp_of_getLast? fun hlast => (h l hl '\r' (List.mem_of_getLast? hlast)).2 rfl
  rw [lines_flatMap hfeed, List.map_congr_left hchomp, List.map_id]

/-- What a reader finds of lines that were each written with a line end. -/
theorem byteLines_encode_flatMap {ls : List (List Char)}
    (h : ∀ l ∈ ls, ∀ c ∈ l, c ≠ '\n' ∧ c ≠ '\r') :
    byteLines (Utf8.encode (ls.flatMap (· ++ ['\n']))) = ls.map Utf8.encode := by
  rw [byteLines_encode, lines_flatMap_of_forall_ne h]

@[simp] theorem decodeLine_encode (cs : List Char) : decodeLine (Utf8.encode cs) = .ok cs := by
  rw [decodeLine, Utf8.decode?_encode]

theorem decodeLine_bind {α : Type} {raw : List UInt8} {line : List Char}
    (h : decodeLine raw = .ok line) (f : List Char → Except Fault α) :
    (decodeLine raw >>= f) = f line := by
  rw [h]
  rfl

end WordFile

end PioKit
