import PioKit.Proofs.RoundTrip

/-!
# The order of the lines of a listing

Every line of a listing carries the index of its word, and a reader that has taken in `n` words takes no
other line than that of index `n`. So lines that are lost, repeated or misplaced are refused at the first
line that does not stand where it was written, and lines without such a line are the first ones of the
listing.
-/

namespace PioKit.WordFile

open Text (Utf8.encode)

/-- A list that is no prefix of another has a first element that is not the one expected. -/
theorem exists_first_difference {α : Type} {l m : List α} (h : ¬ l <+: m) :
    ∃ common a rest, l = common ++ a :: rest ∧ common <+: m ∧ m[common.length]? ≠ some a := by
  induction l generalizing m with
  | nil => exact absurd List.nil_prefix h
  | cons a l ih =>
    by_cases hhead : m.head? = some a
    · obtain ⟨m, rfl⟩ : ∃ tail, m = a :: tail := List.head?_eq_some_iff.mp hhead
      have htail : ¬ l <+: m := fun hprefix => h (List.cons_prefix_cons.mpr ⟨rfl, hprefix⟩)
      obtain ⟨common, b, rest, rfl, hcommon, hb⟩ := ih htail
      exact ⟨a :: common, b, rest, rfl, List.cons_prefix_cons.mpr ⟨rfl, hcommon⟩, hb⟩
    · refine ⟨[], a, l, rfl, List.nil_prefix, ?_⟩
      rwa [List.head?_eq_getElem?] at hhead

namespace Listing

variable {words : List Word} {drawn : List (List Char)}

theorem length_entries (words : List Word) : (entries words).length = words.length := by
  rw [entries, List.length_map, List.length_zipIdx]

theorem getElem?_entries (words : List Word) (i : Nat) :
    (entries words)[i]? = words[i]?.map (entry i) := by
  rw [entries, List.getElem?_map, List.getElem?_zipIdx, Option.map_map, Nat.zero_add]
  rfl

theorem take_entries (words : List Word) (n : Nat) :
    (entries words).take n = entries (words.take n) := by
  apply List.ext_getElem?
  intro i
  rw [List.getElem?_take, getElem?_entries, getElem?_entries, List.getElem?_take]
  split <;> rfl

theorem lines_write (words : List Word) : Text.lines '\n' '\r' (write words) = entries words := by
  rw [write_eq_flatMap, lines_flatMap_of_forall_ne (forall_mem_entries words)]

/-- The lines of a text are read one after the other. -/
theorem read_encode (text : List Char) :
    read (Utf8.encode text) =
      (((Text.lines '\n' '\r' text).map Utf8.encode).foldlM readLine #[]).map Array.toList := by
  rw [read, byteLines_encode]
  rfl

theorem foldlM_readLine_of_isPrefix (hlength : words.length ≤ maxIndex + 1)
    (h : drawn <+: entries words) :
    (drawn.map Utf8.encode).foldlM readLine #[] = .ok (words.take drawn.length).toArray := by
  have htake : drawn = entries (words.take drawn.length) := by
    rw [← take_entries]
    exact List.prefix_iff_eq_take.mp h
  have hfirst : (words.take drawn.length).length ≤ maxIndex + 1 := by
    rw [List.length_take]
    omega
  conv_lhs => rw [htake]
  exact foldlM_readLine_map_encode_entries hfirst

/-- Behind the first lines of a listing, a line of the listing that is not the next one is refused. -/
theorem foldlM_readLine_of_ne {common rest : List (List Char)} {i : Nat} {word : Word}
    (hlength : words.length ≤ maxIndex + 1) (hcommon : common <+: entries words)
    (hword : words[i]? = some word) (hi : i ≠ common.length) :
    ((common ++ entry i word :: rest).map Utf8.encode).foldlM readLine #[] =
      .error (.unexpectedIndex i) := by
  have hindex : i ≤ maxIndex := by
    have hlt := (List.getElem?_eq_some_iff.mp hword).1
    omega
  have hsize : (words.take common.length).toArray.size = common.length := by
    have hle := hcommon.length_le
    rw [length_entries] at hle
    rw [List.size_toArray, List.length_take]
    omega
  rw [List.map_append, List.foldlM_append, bind_eq_error_iff]
  refine .inr ⟨_, foldlM_readLine_of_isPrefix hlength hcommon, ?_⟩
  rw [List.map_cons, List.foldlM_cons, bind_eq_error_iff, readLine_entry hindex, hsize, if_neg hi]
  exact .inl rfl

theorem foldlM_readLine_of_not_isPrefix (hlength : words.length ≤ maxIndex + 1)
    (hdrawn : ∀ line ∈ drawn, line ∈ entries words) (h : ¬ drawn <+: entries words) :
    ∃ i k, k < drawn.length ∧ i ≠ k ∧ drawn.take k = (entries words).take k ∧
      drawn[k]? = (entries words)[i]? ∧
      (drawn.map Utf8.encode).foldlM readLine #[] = .error (.unexpectedIndex i) := by
  obtain ⟨common, line, rest, rfl, hcommon, hline⟩ := exists_first_difference h
  have hmem : line ∈ entries words := hdrawn line (List.mem_append_right _ List.mem_cons_self)
  obtain ⟨i, hi⟩ := List.getElem?_of_mem hmem
  have hne : i ≠ common.length := by
    rintro rfl
    exact hline hi
  refine ⟨i, common.length, by simp, hne, ?_, ?_, ?_⟩
  · rw [List.take_left, ← List.prefix_iff_eq_take.mp hcommon]
  · rw [hi]
    simp
  · rw [getElem?_entries, Option.map_eq_some_iff] at hi
    obtain ⟨word, hword, rfl⟩ := hi
    exact foldlM_readLine_of_ne hlength hcommon hword hne

end Listing

open Listing

/-- Lines drawn from a listing, with omissions, repetitions and in any order, are read exactly if they are
its first ones, and then as the words of those. Otherwise the first line that does not stand where it was
written is refused by its index. -/
theorem read_text_of_drawn {words : List Word} (hlength : words.length ≤ maxIndex + 1)
    {text : List Char} {listing drawn : List (List Char)}
    (hlisting : Text.lines '\n' '\r' (Listing.write words) = listing)
    (htext : Text.lines '\n' '\r' text = drawn) (hdrawn : ∀ line ∈ drawn, line ∈ listing) :
    ((∃ result, read .text (Utf8.encode text) = .ok result) ↔ drawn <+: listing) ∧
    (drawn <+: listing → read .text (Utf8.encode text) = .ok (words.take drawn.length)) ∧
    (¬ drawn <+: listing → ∃ i k, k < drawn.length ∧ i ≠ k ∧ drawn.take k = listing.take k ∧
      drawn[k]? = listing[i]? ∧ read .text (Utf8.encode text) = .error (.unexpectedIndex i)) := by
  rw [lines_write] at hlisting
  subst hlisting
  have hread : read .text (Utf8.encode text) =
      ((drawn.map Utf8.encode).foldlM readLine #[]).map Array.toList := by
    rw [← htext]
    exact read_encode text
  have hfirst : drawn <+: entries words →
      read .text (Utf8.encode text) = .ok (words.take drawn.length) := by
    intro h
    rw [hread, foldlM_readLine_of_isPrefix hlength h]
    rfl
  have hother : ¬ drawn <+: entries words → ∃ i k, k < drawn.length ∧ i ≠ k ∧
      drawn.take k = (entries words).take k ∧ drawn[k]? = (entries words)[i]? ∧
      read .text (Utf8.encode text) = .error (.unexpectedIndex i) := by
    intro h
    obtain ⟨i, k, hk, hne, htake, hline, hfold⟩ :=
      foldlM_readLine_of_not_isPrefix hlength hdrawn h
    refine ⟨i, k, hk, hne, htake, hline, ?_⟩
    rw [hread, hfold]
    rfl
  refine ⟨⟨?_, fun h => ⟨_, hfirst h⟩⟩, hfirst, hother⟩
  rintro ⟨result, hresult⟩
  by_contra h
  obtain ⟨i, -, -, -, -, -, herror⟩ := hother h
  rw [hresult] at herror
  cases herror

/-- Of three lines the first two are read, and the first and the last are not. -/
theorem read_text_of_drawn_lost :
    Text.lines '\n' '\r' (Listing.write [0xE001, 0xE002, 0xE003]) =
        ["0000: E001".toList, "0001: E002".toList, "0002: E003".toList] ∧
      read .text (Utf8.encode "0000: E001\n0001: E002\n".toList) = .ok [0xE001, 0xE002] ∧
      ∃ i, read .text (Utf8.encode "0000: E001\n0002: E003".toList) =
        .error (.unexpectedIndex i) := by
  have hlisting : Text.lines '\n' '\r' (Listing.write [0xE001, 0xE002, 0xE003]) =
      ["0000: E001".toList, "0001: E002".toList, "0002: E003".toList] := by
    rw [lines_write]
    decide
  have hfirst : Text.lines '\n' '\r' "0000: E001\n0001: E002\n".toList =
      ["0000: E001".toList, "0001: E002".toList] := by decide
  have hlost : Text.lines '\n' '\r' "0000: E001\n0002: E003".toList =
      ["0000: E001".toList, "0002: E003".toList] := by decide
  have hlength : [(0xE001 : Word), 0xE002, 0xE003].length ≤ maxIndex + 1 := by decide
  have hread := read_text_of_drawn hlength hlisting hfirst (by decide)
  have hrefused := read_text_of_drawn hlength hlisting hlost (by decide)
  obtain ⟨i, -, -, -, -, -, hindex⟩ := hrefused.2.2 (by decide)
  exact ⟨hlisting, hread.2.1 (by decide), i, hindex⟩

end PioKit.WordFile
