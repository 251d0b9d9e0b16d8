import PioKit.Proofs.LiteralLayout

/-!
# Word files are read back

Reading a file that was written in the binary, text or array format gives the words that were
written. For pairs of bytes and for listings one lemma says what the reader makes of a single written word
after any words before it, and the file follows by induction over the words. Written literals are one
layout of many that are read alike.
-/

namespace PioKit.WordFile

open Text (Utf8.encode)

/-! ## Binary files -/

namespace Binary

theorem write_cons (word : Word) (words : List Word) :
    write (word :: words) = word.lowByte :: word.highByte :: write words := rfl

theorem write_append (l r : List Word) : write (l ++ r) = write l ++ write r :=
  List.flatMap_append

theorem length_write (words : List Word) : (write words).length = 2 * words.length := by
  induction words with
  | nil => rfl
  | cons word words ih =>
    rw [write_cons, List.length_cons, List.length_cons, ih, List.length_cons]
    omega

/-- Word number `i` holds the bytes `2 * i` and `2 * i + 1`; out of bounds all are zero. -/
theorem getD_write (words : List Word) (i : Nat) :
    (write words).getD (2 * i) 0 = (words.getD i 0).lowByte ∧
      (write words).getD (2 * i + 1) 0 = (words.getD i 0).highByte := by
  induction words generalizing i with
  | nil => simp [write, Word.lowByte, Word.highByte]
  | cons word words ih =>
    cases i with
    | zero => exact ⟨rfl, rfl⟩
    | succ i => exact ih i

/-- An even number of bytes is the file of some words. -/
theorem exists_write_eq {bytes : List UInt8} (h : bytes.length % 2 = 0) :
    ∃ words, write words = bytes := by
  match bytes with
  | [] => exact ⟨[], rfl⟩
  | [_] => simp at h
  | low :: high :: rest =>
    have hrest : rest.length % 2 = 0 := by
      simp only [List.length_cons] at h
      omega
    obtain ⟨words, rfl⟩ := exists_write_eq hrest
    exact ⟨Word.ofBytes low high :: words, by
      rw [write_cons, Word.lowByte_ofBytes, Word.highByte_ofBytes]⟩

theorem appendPairs_write (acc : Array Word) (words : List Word) :
    appendPairs acc (write words) = acc ++ words.toArray := by
  induction words generalizing acc with
  | nil => simp [write, appendPairs]
  | cons word words ih =>
    rw [write_cons, appendPairs, Word.ofBytes_lowByte_highByte, ih]
    simp

theorem read_write_words (words : List Word) : read (write words) = .ok words := by
  have heven : (write words).length % 2 = 0 := by
    rw [length_write]
    omega
  rw [read, if_pos heven, appendPairs_write]
  simp

end Binary

/-! ## Listings -/

namespace Listing

variable {index : Nat} {word : Word} {words : List Word}

/-- The line of a word, without its line end. -/
def entry (index : Nat) (word : Word) : List Char :=
  Numeral.hex 4 index ++ ':' :: ' ' :: Numeral.hex 4 word.toNat

/-- The lines of a listing, without their line ends. -/
def entries (words : List Word) : List (List Char) :=
  words.zipIdx.map fun (word, index) => entry index word

theorem write_eq_flatMap (words : List Word) :
    write words = (entries words).flatMap (· ++ ['\n']) := by
  rw [entries, List.flatMap_map, write]
  congr 1
  funext ⟨word, index⟩
  simp [line, entry]

theorem forall_mem_entry {p : Char → Prop} (hdigit : ∀ d < 16, p (Numeral.upperDigit d))
    (hcolon : p ':') (hspace : p ' ') (index : Nat) (word : Word) :
    ∀ c ∈ entry index word, p c := by
  rw [entry, List.forall_mem_append, List.forall_mem_cons, List.forall_mem_cons]
  exact ⟨Numeral.forall_mem_hex hdigit 4 index, hcolon, hspace,
    Numeral.forall_mem_hex hdigit 4 word.toNat⟩

theorem forall_mem_entries (words : List Word) :
    ∀ l ∈ entries words, ∀ c ∈ l, c ≠ '\n' ∧ c ≠ '\r' := by
  intro l hl
  obtain ⟨⟨word, index⟩, -, rfl⟩ := List.mem_map.mp hl
  exact forall_mem_entry (by decide) (by decide) (by decide) index word

theorem split?_append {l : List Char} (h : ∀ c ∈ l, c ≠ ':') (r : List Char) :
    split? (l ++ ':' :: r) = some (l, r) := by
  have hl : ∀ c ∈ l, (c != ':') = true := fun c hc => bne_iff_ne.mpr (h c hc)
  rw [split?, List.dropWhile_append_of_pos hl, List.takeWhile_append_of_pos hl]
  simp

/-- A line gives its word if it has the index that is expected. -/
theorem readWord_entry (h : index ≤ maxIndex) (expected : Nat) (word : Word) :
    readWord expected (entry index word) =
      if index = expected then .ok word else .error (.unexpectedIndex index) := by
  have hcolon : ∀ c ∈ Numeral.hex 4 index, c ≠ ':' := Numeral.forall_mem_hex (by decide) 4 index
  have hleft : Text.trim (Numeral.hex 4 index) = Numeral.hex 4 index :=
    Text.trim_of_forall_false (Numeral.not_blank_of_mem_hex 4 index)
  have hright : Text.trim (' ' :: Numeral.hex 4 word.toNat) = Numeral.hex 4 word.toNat := by
    rw [Text.trim_cons_of_blank (by decide)]
    exact Text.trim_of_forall_false (Numeral.not_blank_of_mem_hex 4 word.toNat)
  have hword : word.toNat ≤ 0xFFFF := Nat.le_of_lt_succ word.isLt
  rw [readWord, entry, split?_append hcolon]
  simp only [hleft, hright, readHex_hex h, readHex_hex hword, bind, Except.bind, pure, Except.pure,
    BitVec.ofNat_toNat, BitVec.setWidth_eq]
  rfl

theorem trim_entry_ne_nil (index : Nat) (word : Word) : Text.trim (entry index word) ≠ [] := by
  intro h
  have hblank := Text.trim_eq_nil_iff.mp h ':' (by simp [entry])
  revert hblank
  decide

/-- The line of the next word appends it to the words before, and any other line is refused. -/
theorem readLine_entry (h : index ≤ maxIndex) (acc : Array Word) (word : Word) :
    readLine acc (Utf8.encode (entry index word)) =
      if index = acc.size then .ok (acc.push word) else .error (.unexpectedIndex index) := by
  have hempty : (Text.trim (entry index word)).isEmpty = false := by simp [trim_entry_ne_nil]
  rw [readLine, decodeLine_bind (decodeLine_encode _), hempty, readWord_entry h]
  by_cases hindex : index = acc.size
  · rw [if_pos hindex, if_pos hindex]
    rfl
  · rw [if_neg hindex, if_neg hindex]
    rfl

theorem foldlM_readLine_entries {acc : Array Word} {words : List Word}
    (h : acc.size + words.length ≤ maxIndex + 1) :
    ((words.zipIdx acc.size).map fun (word, index) => Utf8.encode (entry index word)).foldlM
      readLine acc = .ok (acc ++ words.toArray) := by
  -- the number of words read so far is the index of the next line
  induction words generalizing acc with
  | nil => simp [pure, Except.pure]
  | cons word words ih =>
    rw [List.length_cons] at h
    have hindex : acc.size ≤ maxIndex := by omega
    have hsize : (acc.push word).size + words.length ≤ maxIndex + 1 := by
      rw [Array.size_push]
      omega
    have hrest := ih hsize
    rw [Array.size_push] at hrest
    rw [List.zipIdx_cons, List.map_cons, List.foldlM_cons, bind_eq_ok_iff]
    refine ⟨acc.push word, (readLine_entry hindex acc word).trans (if_pos rfl), hrest.trans ?_⟩
    simp

theorem foldlM_readLine_map_encode_entries {words : List Word} (h : words.length ≤ maxIndex + 1) :
    ((entries words).map Utf8.encode).foldlM readLine #[] = .ok words.toArray := by
  have hfold := @foldlM_readLine_entries #[] words (by simpa using h)
  rw [Array.empty_append] at hfold
  rw [entries, List.map_map]
  exact hfold

theorem read_encode_write {words : List Word} (h : words.length ≤ maxIndex + 1) :
    read (Utf8.encode (write words)) = .ok words := by
  rw [read, write_eq_flatMap, byteLines_encode_flatMap (forall_mem_entries words),
    foldlM_readLine_map_encode_entries h]
  rfl

end Listing

/-! ## Literals -/

namespace Literals

/-- A list of literals has a comma and a line end behind each of them. -/
theorem laid_write (words : List Word) : Laid words (write words) := by
  induction words with
  | nil => exact .nil
  | cons word words ih =>
    have hdigits : Numeral.Denotes 16 (Numeral.hex 4 word.toNat) word.toNat :=
      (Numeral.denotes_iff (by decide)).mpr
        ⟨Numeral.hex_ne_nil 4 word.toNat, Numeral.ofDigits?_hex 4 word.toNat⟩
    have hgap : ∀ c ∈ [',', '\n'], isFiller c = true := List.all_eq_true.mp rfl
    exact .cons ⟨_, rfl, hdigits⟩ hgap (fun _ => .inl List.mem_cons_self) ih

theorem read_encode_write (words : List Word) : read (Utf8.encode (write words)) = .ok words := by
  rw [read_encode_eq, (laid_write words).foldlM_readLiteral, Array.empty_append]
  rfl

end Literals

/-- A file in any format but Intel HEX is read back as the words it was written from. The indices of
a listing bound its length; they may have any number of digits. -/
theorem read_write_of_ne_hex {format : Format} (hformat : format ≠ .hex) {words : List Word}
    (hlength : format = .text → words.length ≤ Listing.maxIndex + 1) :
    read format (write format words) = .ok words := by
  cases format with
  | binary => exact Binary.read_write_words words
  | hex => contradiction
  | text => exact Listing.read_encode_write (hlength rfl)
  | array => exact Literals.read_encode_write words

/-- A listing of 65537 words, the last of which has an index of five digits. -/
theorem read_write_text_five_digits :
    Format.text ≠ .hex ∧ (List.replicate 65537 (0xE001 : Word)).length ≤ Listing.maxIndex + 1 ∧
      read .text (write .text (List.replicate 65537 0xE001)) =
        .ok (List.replicate 65537 0xE001) := by
  have hlength : (List.replicate 65537 (0xE001 : Word)).length ≤ Listing.maxIndex + 1 := by
    rw [List.length_replicate]
    decide
  exact ⟨by decide, hlength, read_write_of_ne_hex (by decide) fun _ => hlength⟩

end PioKit.WordFile
