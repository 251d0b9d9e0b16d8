import PioKit.Proofs.MemoryImage
import PioKit.WordFile

/-!
# The image of any records

The records of a file may come in any order, overlap and leave gaps. Their image reaches as far as one
of them does (`extent`), and each of its bytes is that of the last record that covers it, or zero
(`byteAt`). Storing one more record keeps this (`IsImage.storeIn`), so it holds after a whole file. The
reader grows its image before it stores, so it never writes outside of it: `readLines?` looks at every
address before it is used, and reads the same.
-/

namespace PioKit.WordFile

namespace Binary

/-- Bytes are read in pairs, the low byte first. -/
theorem read_eq (bytes : List UInt8) :
    read bytes =
      if bytes.length % 2 = 0 then
        .ok ((List.range (bytes.length / 2)).map fun i =>
          Word.ofBytes (bytes.getD (2 * i) 0) (bytes.getD (2 * i + 1) 0))
      else .error .oddSize := by
  by_cases heven : bytes.length % 2 = 0
  · obtain ⟨words, rfl⟩ := exists_write_eq heven
    have hwords : words = (List.range words.length).map fun i =>
        Word.ofBytes ((write words).getD (2 * i) 0) ((write words).getD (2 * i + 1) 0) := by
      apply List.ext_getElem
      · rw [List.length_map, List.length_range]
      · intro i hi hi'
        obtain ⟨hlow, hhigh⟩ := getD_write words i
        rw [List.getElem_map, List.getElem_range, hlow, hhigh, Word.ofBytes_lowByte_highByte,
          List.getD_eq_getElem _ _ hi]
    have hhalf : (write words).length / 2 = words.length := by
      rw [length_write]
      omega
    rw [if_pos heven, hhalf, ← hwords, read_write_words]
  · rw [if_neg heven, read, if_neg heven]

end Binary

namespace IntelHex

variable {r : Record} {rs rs' : List Record} {image : Array UInt8} {k : Nat}

/-! ## What records say about memory -/

namespace Record

/-- The first address behind the data. -/
def reach (r : Record) : Nat :=
  r.address.toNat + r.data.length

/-- The byte that the record stores at an address, if it covers it. -/
def byte? (r : Record) (k : Nat) : Option UInt8 :=
  if r.address.toNat ≤ k then r.data[k - r.address.toNat]? else none

/-- No address is covered by both records. -/
def Apart (r r' : Record) : Prop :=
  ∀ k, r.byte? k = none ∨ r'.byte? k = none

end Record

/-- The number of bytes that hold all records. -/
def extent (rs : List Record) : Nat :=
  rs.foldr (fun r n => max r.reach n) 0

/-- The byte at an address: that of the last record that covers it, or zero. -/
def byteAt (rs : List Record) (k : Nat) : UInt8 :=
  (rs.filterMap (·.byte? k)).getLastD 0

/-- The words of the bytes that the records reach. -/
def imageWords (rs : List Record) : List Word :=
  (List.range (extent rs / 2)).map fun i => Word.ofBytes (byteAt rs (2 * i)) (byteAt rs (2 * i + 1))

theorem extent_le_iff {n : Nat} : extent rs ≤ n ↔ ∀ r ∈ rs, r.reach ≤ n := by
  induction rs with
  | nil => simp [extent]
  | cons r rs ih =>
    have hcons : extent (r :: rs) = max r.reach (extent rs) := rfl
    rw [hcons, Nat.max_le, ih, List.forall_mem_cons]

theorem extent_concat (rs : List Record) (r : Record) :
    extent (rs ++ [r]) = max (extent rs) r.reach := by
  apply eq_of_forall_ge_iff
  intro n
  rw [extent_le_iff, Nat.max_le, extent_le_iff, List.forall_mem_append, List.forall_mem_singleton]

theorem byteAt_concat (rs : List Record) (r : Record) (k : Nat) :
    byteAt (rs ++ [r]) k = (r.byte? k).getD (byteAt rs k) := by
  unfold byteAt
  rw [List.filterMap_append]
  cases hbyte : r.byte? k with
  | none => simp [hbyte]
  | some byte => simp [hbyte]

/-! ## The order of records -/

theorem extent_eq_of_perm (h : rs.Perm rs') : extent rs' = extent rs := by
  apply eq_of_forall_ge_iff
  intro n
  rw [extent_le_iff, extent_le_iff]
  exact ⟨fun hreach r hr => hreach r (h.mem_iff.mp hr), fun hreach r hr => hreach r (h.mem_iff.mpr hr)⟩

/-- Of records that are apart at most one covers an address, so their order does not matter. -/
theorem byteAt_eq_of_perm (h : rs.Perm rs') (hapart : rs.Pairwise Record.Apart) (k : Nat) :
    byteAt rs' k = byteAt rs k := by
  have hnone : (rs.filterMap (·.byte? k)).Pairwise fun _ _ => False := by
    rw [List.pairwise_filterMap]
    apply hapart.imp
    intro r r' hrr' byte hbyte byte' hbyte'
    rcases hrr' k with hk | hk
    · rw [hk] at hbyte
      cases hbyte
    · rw [hk] at hbyte'
      cases hbyte'
  have hperm := h.filterMap (·.byte? k)
  unfold byteAt
  generalize rs.filterMap (·.byte? k) = bytes at hnone hperm ⊢
  match bytes with
  | [] => rw [hperm.symm.eq_nil]
  | [byte] => rw [List.perm_singleton.mp hperm.symm]
  | byte :: byte' :: rest =>
    rw [List.pairwise_cons] at hnone
    exact (hnone.1 byte' List.mem_cons_self).elim

theorem imageWords_eq_of_perm (h : rs.Perm rs') (hapart : rs.Pairwise Record.Apart) :
    imageWords rs' = imageWords rs := by
  unfold imageWords
  simp only [extent_eq_of_perm h, byteAt_eq_of_perm h hapart]

/-! ## Storing records -/

/-- The image reaches as far as the records and holds their bytes. -/
structure IsImage (rs : List Record) (image : Array UInt8) : Prop where
  size_eq : image.size = extent rs
  getD_eq : ∀ k, image.getD k 0 = byteAt rs k

theorem getD_storeIn (image : Array UInt8) (r : Record) (k : Nat) :
    (r.storeIn image).getD k 0 = (r.byte? k).getD (image.getD k 0) := by
  rw [Record.storeIn, getD_store]
  by_cases hle : r.address.toNat ≤ k
  · by_cases hlt : k < r.address.toNat + r.data.length
    · have hindex : k - r.address.toNat < r.data.length := by omega
      rw [if_pos ⟨hle, hlt⟩, Record.byte?, if_pos hle, List.getElem?_eq_getElem hindex,
        List.getD_eq_getElem _ _ hindex, Option.getD_some]
    · have hindex : r.data.length ≤ k - r.address.toNat := by omega
      rw [if_neg fun hboth => hlt hboth.2, Record.byte?, if_pos hle,
        List.getElem?_eq_none hindex, Option.getD_none]
  · rw [if_neg fun hboth => hle hboth.1, Record.byte?, if_neg hle, Option.getD_none]

theorem IsImage.storeIn (h : IsImage rs image) (r : Record) :
    IsImage (rs ++ [r]) (r.storeIn image) where
  size_eq := by rw [Record.storeIn, size_store, h.size_eq, extent_concat, Record.reach]
  getD_eq := by
    intro k
    rw [getD_storeIn, h.getD_eq, byteAt_concat]

theorem isImage_foldl (rs : List Record) : IsImage rs (rs.foldl Record.storeIn #[]) := by
  induction rs using List.reverseRecOn with
  | nil => exact ⟨rfl, fun _ => rfl⟩
  | append_singleton rs r ih =>
    rw [List.foldl_append]
    exact ih.storeIn r

theorem IsImage.read_toList (h : IsImage rs image) :
    Binary.read image.toList =
      if extent rs % 2 = 0 then .ok (imageWords rs) else .error .oddSize := by
  have hgetD : ∀ k, image.toList.getD k 0 = byteAt rs k := by
    intro k
    rw [← h.getD_eq k, List.getD_eq_getElem?_getD, Array.getElem?_toList,
      Array.getD_eq_getD_getElem?]
  rw [Binary.read_eq, Array.length_toList, h.size_eq]
  simp only [hgetD]
  rfl

/-- A file holds the words of the image of its records. -/
theorem read_of_holds {bytes : List UInt8} (h : Holds (byteLines bytes) rs) :
    read bytes = if extent rs % 2 = 0 then .ok (imageWords rs) else .error .oddSize := by
  rw [← (isImage_foldl rs).read_toList, read, readLines_of_holds h]
  rfl

theorem Holds.fits {lines : List (List UInt8)} (h : Holds lines rs) :
    ∀ r ∈ rs, r.data.length ≤ 255 := by
  induction h with
  | nil | stop => exact List.forall_mem_nil _
  | data _ hline _ _ ih => exact List.forall_mem_cons.mpr ⟨hline.fits, ih⟩
  | other _ _ _ ih => exact ih

/-- The last address is 65535, and a record has at most 255 bytes of data there. -/
theorem length_imageWords_le {lines : List (List UInt8)} (h : Holds lines rs) :
    (imageWords rs).length ≤ 32895 := by
  have hextent : extent rs ≤ 65790 := by
    rw [extent_le_iff]
    intro r hr
    have haddress : r.address.toNat < 65536 := r.address.isLt
    have hfits := h.fits r hr
    rw [Record.reach]
    omega
  rw [imageWords, List.length_map, List.length_range]
  omega

/-! ## Checked addresses -/

/-- Replaces the bytes of an image from an address on; `none` if they do not all lie inside. -/
def overwrite? (image : Array UInt8) (address : Nat) : List UInt8 → Option (Array UInt8)
  | [] => if address ≤ image.size then some image else none
  | byte :: rest =>
    if h : address < image.size then overwrite? (image.set address byte h) (address + 1) rest
    else none

/-- Stores bytes in an image that grows first, with every address checked. -/
def store? (image : Array UInt8) (address : Nat) (data : List UInt8) : Option (Array UInt8) :=
  overwrite? (grow (grow image address) (address + data.length)) address data

/-- Reads lines with every address checked; `none` if one is outside of the image. -/
def readLines? (image : Array UInt8) :
    List (List UInt8) → Option (Except Fault (Array UInt8))
  | [] => some (.ok image)
  | line :: rest =>
    match decodeLine line >>= readLine with
    | .error fault => some (.error fault)
    | .ok .skip => readLines? image rest
    | .ok (.store address data) => do readLines? (← store? image address data) rest
    | .ok .stop => some (.ok image)

theorem overwrite?_eq_some_iff {image' : Array UInt8} {address : Nat} {data : List UInt8} :
    overwrite? image address data = some image' ↔
      address + data.length ≤ image.size ∧ overwrite image address data = image' := by
  induction data generalizing image address with
  | nil => simp [overwrite?, overwrite]
  | cons byte data ih =>
    rw [overwrite?, overwrite, List.length_cons]
    by_cases h : address < image.size
    · rw [dif_pos h, ih, Array.size_set, Array.setIfInBounds, dif_pos h]
      have hsum : address + 1 + data.length = address + (data.length + 1) := by omega
      rw [hsum]
    · rw [dif_neg h]
      constructor
      · intro hnone
        cases hnone
      · rintro ⟨hle, -⟩
        omega

theorem store?_eq (image : Array UInt8) (address : Nat) (data : List UInt8) :
    store? image address data = some (store image address data) := by
  rw [store?, overwrite?_eq_some_iff, size_grow]
  exact ⟨Nat.le_max_right _ _, rfl⟩

/-- Reading any lines whatever, no address is outside of the image. -/
theorem readLines?_eq (image : Array UInt8) (lines : List (List UInt8)) :
    readLines? image lines = some (readLines image lines) := by
  induction lines generalizing image with
  | nil => rfl
  | cons line rest ih =>
    rw [readLines?, readLines]
    rcases decodeLine line >>= readLine with fault | action
    · rfl
    · cases action with
      | skip => exact ih image
      | store address data =>
        show (store? image address data).bind (readLines? · rest) = _
        rw [store?_eq]
        exact ih (store image address data)
      | stop => rfl

end IntelHex

open IntelHex

/-- A file of data records, in any order and among other lines, is read as the words of their image.
Records that are apart may change places, no address is outside of the image, and the words are at
most 32895. -/
theorem read_hex_of_holds {bytes : List UInt8} {rs : List Record} (h : Holds (byteLines bytes) rs) :
    (read .hex bytes = if extent rs % 2 = 0 then .ok (imageWords rs) else .error .oddSize) ∧
      (∀ bytes' rs', rs.Pairwise Record.Apart → rs.Perm rs' → Holds (byteLines bytes') rs' →
        read .hex bytes' = read .hex bytes) ∧
      readLines? #[] (byteLines bytes) = some (readLines #[] (byteLines bytes)) ∧
      ∀ words, read .hex bytes = .ok words → words.length ≤ 32895 := by
  have hread : read .hex bytes =
      if extent rs % 2 = 0 then .ok (imageWords rs) else .error .oddSize := read_of_holds h
  refine ⟨hread, ?_, readLines?_eq _ _, ?_⟩
  · intro bytes' rs' hapart hperm h'
    have hread' : read .hex bytes' =
        if extent rs' % 2 = 0 then .ok (imageWords rs') else .error .oddSize := read_of_holds h'
    rw [hread', hread, extent_eq_of_perm hperm, imageWords_eq_of_perm hperm hapart]
  · intro words hwords
    rw [hread] at hwords
    split at hwords
    · cases hwords
      exact length_imageWords_le h
    · cases hwords

/-- A later record that overlaps an earlier one, with small digits, a line that is no record and a byte
that is no text behind the end; and two records that are apart, in either order. -/
theorem read_hex_of_holds_overlap :
    let file := Text.Utf8.encode
      ":02000200AABB97\r\n; note\n :0100030011eb\n:00000001FF\n".toList ++ [0xFF]
    let first : Record := ⟨2, dataKind, [0xAA, 0xBB]⟩
    let second : Record := ⟨3, dataKind, [0x11]⟩
    let third : Record := ⟨0, dataKind, [0x11]⟩
    let written rs := Text.Utf8.encode ((rs ++ [endRecord]).flatMap Record.line)
    Holds (byteLines file) [first, second] ∧ read .hex file = .ok [0x0000, 0x11AA] ∧
      [first, third].Pairwise Record.Apart ∧
      Holds (byteLines (written [first, third])) [first, third] ∧
      read .hex (written [first, third]) = .ok [0x0011, 0xBBAA] ∧
      read .hex (written [third, first]) = .ok [0x0011, 0xBBAA] := by
  intro file first second third written
  have hlines : byteLines file = [Text.Utf8.encode first.text, Text.Utf8.encode "; note".toList,
      Text.Utf8.encode " :0100030011eb".toList, Text.Utf8.encode endRecord.text, [0xFF]] := by
    decide +kernel
  have hdigits : SpellsBytes ['0', '1', '0', '0', '0', '3', '0', '0', '1', '1', 'e', 'b']
      [0x01, 0x00, 0x03, 0x00, 0x11, 0xEB] :=
    .cons (h := 0) (l := 1) rfl rfl <| .cons (h := 0) (l := 0) rfl rfl <|
      .cons (h := 0) (l := 3) rfl rfl <| .cons (h := 0) (l := 0) rfl rfl <|
      .cons (h := 1) (l := 1) rfl rfl <| .cons (h := 14) (l := 11) rfl rfl .nil
  have hsecond : second.InLine " :0100030011eb".toList := by
    have hbytes : second.body ++ [0xEB] = [0x01, 0x00, 0x03, 0x00, 0x11, 0xEB] := by decide
    refine ⟨by decide, 0xEB, "0100030011eb".toList, [], by decide +kernel, ?_, by decide⟩
    rw [hbytes]
    exact hdigits
  have hfile : Holds (byteLines file) [first, second] := by
    rw [hlines]
    refine .data (decodeLine_encode _) (Record.inLine_text (by decide)) rfl ?_
    refine .other (decodeLine_encode _) (by decide) ?_
    refine .data (decodeLine_encode _) hsecond rfl ?_
    exact .stop (decodeLine_encode _) (Record.inLine_text (by decide)) rfl _
  have hfirst : Holds (byteLines (written [first, third])) [first, third] :=
    holds_flatMap_line (by decide)
  have hthird : Holds (byteLines (written [third, first])) [third, first] :=
    holds_flatMap_line (by decide)
  have hapart : [first, third].Pairwise Record.Apart := by
    rw [List.pairwise_pair]
    intro k
    by_cases hk : k = 0
    · subst hk
      exact .inl rfl
    · exact .inr (List.getElem?_eq_none (Nat.pos_of_ne_zero hk))
  have hwords : read .hex (written [first, third]) = .ok [0x0011, 0xBBAA] :=
    (read_hex_of_holds hfirst).1.trans (by decide)
  have hswap := (read_hex_of_holds hfirst).2.1 _ _ hapart (.swap third first []) hthird
  exact ⟨hfile, (read_hex_of_holds hfile).1.trans (by decide), hapart, hfirst, hwords,
    hswap.trans hwords⟩

end PioKit.WordFile
