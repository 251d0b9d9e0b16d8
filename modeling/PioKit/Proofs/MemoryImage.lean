import Mathlib.Data.List.GetD
import Mathlib.Data.Nat.ModEq
import Mathlib.Order.Bounds.Defs
import PioKit.Proofs.WrittenRecords

/-!
# The memory image of a file

Storing data in an image replaces the bytes that the data covers and leaves all others as they were.
The rows of a written file follow one another through an address space of 65536 bytes that starts
again at zero when it is full, so what the image holds at the end is the last byte written to each
address. `Wraps` says this as an invariant of the rows, and reading a written file back says it for
words, of which there are half as many.
-/

namespace PioKit.WordFile

open Text (Utf8.encode)

namespace IntelHex

variable {image : Array UInt8} {address k : Nat} {data : List UInt8}

/-! ## Storing -/

theorem size_overwrite (image : Array UInt8) (address : Nat) (data : List UInt8) :
    (overwrite image address data).size = image.size := by
  induction data generalizing image address with
  | nil => rfl
  | cons byte data ih => rw [overwrite, ih, Array.size_setIfInBounds]

theorem getD_setIfInBounds (h : address < image.size) (byte : UInt8) (k : Nat) :
    (image.setIfInBounds address byte).getD k 0 = if k = address then byte else image.getD k 0 := by
  rw [Array.getD_eq_getD_getElem?, Array.getElem?_setIfInBounds]
  by_cases hk : k = address
  · subst hk
    simp [h]
  · have hk' : ¬ address = k := fun heq => hk heq.symm
    simp [hk, hk']

theorem getD_overwrite (h : address + data.length ≤ image.size) (k : Nat) :
    (overwrite image address data).getD k 0 =
      if address ≤ k ∧ k < address + data.length then data.getD (k - address) 0
      else image.getD k 0 := by
  induction data generalizing image address with
  | nil =>
    rw [if_neg (by simp)]
    rfl
  | cons byte data ih =>
    rw [List.length_cons] at h
    have haddress : address < image.size := by omega
    have hsize : address + 1 + data.length ≤ (image.setIfInBounds address byte).size := by
      rw [Array.size_setIfInBounds]
      omega
    rw [overwrite, ih hsize, getD_setIfInBounds haddress, List.length_cons]
    -- the first byte goes to `address` itself and the others behind it
    rcases Nat.lt_trichotomy k address with hk | rfl | hk
    · rw [if_neg (by omega), if_neg (by omega), if_neg (by omega)]
    · rw [if_neg (by omega), if_pos rfl, if_pos (by omega), Nat.sub_self, List.getD_cons_zero]
    · obtain ⟨m, rfl⟩ : ∃ m, k = address + 1 + m := Nat.exists_eq_add_of_le hk
      have hm : address + 1 + m - address = m + 1 := by omega
      have hcovers : address + 1 ≤ address + 1 + m ∧ address + 1 + m < address + 1 + data.length ↔
          address ≤ address + 1 + m ∧ address + 1 + m < address + (data.length + 1) := by
        omega
      rw [if_neg (show ¬ address + 1 + m = address by omega), Nat.add_sub_cancel_left, hm,
        List.getD_cons_succ]
      exact if_congr hcovers rfl rfl

theorem size_grow (image : Array UInt8) (size : Nat) : (grow image size).size = max image.size size := by
  unfold grow
  split
  · rw [Array.size_append, Array.size_replicate]
    omega
  · omega

/-- An image grows with zeros, and zero is what is found outside of it. -/
theorem getD_grow (image : Array UInt8) (size k : Nat) :
    (grow image size).getD k 0 = image.getD k 0 := by
  unfold grow
  split
  · rw [Array.getD_eq_getD_getElem?, Array.getD_eq_getD_getElem?, Array.getElem?_append]
    by_cases h : k < image.size
    · rw [if_pos h]
    · rw [if_neg h, Array.getElem?_replicate, Array.getElem?_eq_none (Nat.le_of_not_lt h)]
      split <;> rfl
  · rfl

theorem size_store (image : Array UInt8) (address : Nat) (data : List UInt8) :
    (store image address data).size = max image.size (address + data.length) := by
  rw [store, size_overwrite, size_grow, size_grow]
  omega

/-- Data replaces the bytes that it covers; where nothing was ever stored there are zeros. -/
theorem getD_store (image : Array UInt8) (address : Nat) (data : List UInt8) (k : Nat) :
    (store image address data).getD k 0 =
      if address ≤ k ∧ k < address + data.length then data.getD (k - address) 0
      else image.getD k 0 := by
  have hsize : address + data.length ≤
      (grow (grow image address) (address + data.length)).size := by
    rw [size_grow]
    exact Nat.le_max_right _ _
  rw [store, getD_overwrite hsize, getD_grow, getD_grow]

/-! ## Rows in an address space that wraps -/

/-- The last of the places `k`, `k + period`, `k + 2 * period` and so on below `n`. -/
def lastPlace (period n k : Nat) : Nat :=
  k + period * ((n - 1 - k) / period)

/-- An image holds the byte that was written last to each address, where byte number `k` goes to the
address that is `k` modulo 65536. -/
structure Wraps (bytes : List UInt8) (image : Array UInt8) : Prop where
  size_eq : image.size = min bytes.length 65536
  getD_eq : ∀ k < image.size, image.getD k 0 = bytes.getD (lastPlace 65536 bytes.length k) 0

theorem wraps_nil : Wraps [] #[] where
  size_eq := rfl
  getD_eq := nofun

/-- A row of up to sixteen bytes that starts at a multiple of sixteen ends at the latest where the
address space ends, so it never lies on both sides of the wrap. -/
theorem Wraps.store {bytes : List UInt8} (h : Wraps bytes image) (hrow : bytes.length % 16 = 0)
    (hdata : data.length ≤ 16) :
    Wraps (bytes ++ data) (store image (bytes.length % 65536) data) where
  size_eq := by
    rw [size_store, h.size_eq, List.length_append]
    omega
  getD_eq := by
    intro k hk
    rw [size_store, h.size_eq] at hk
    rw [getD_store, List.length_append]
    by_cases hcovers : bytes.length % 65536 ≤ k ∧ k < bytes.length % 65536 + data.length
    · have hlast : lastPlace 65536 (bytes.length + data.length) k =
          bytes.length + (k - bytes.length % 65536) := by
        unfold lastPlace
        omega
      rw [if_pos hcovers, hlast, List.getD_append_right _ _ _ _ (Nat.le_add_right _ _),
        Nat.add_sub_cancel_left]
    · have hlast : lastPlace 65536 (bytes.length + data.length) k =
          lastPlace 65536 bytes.length k := by
        unfold lastPlace
        omega
      have hlt : lastPlace 65536 bytes.length k < bytes.length := by
        unfold lastPlace
        omega
      rw [if_neg hcovers, hlast, List.getD_append _ _ _ _ hlt]
      apply h.getD_eq
      rw [h.size_eq]
      omega

/-- The rows of a file, stored one by one from row number `index` on. -/
theorem Wraps.rows {words : List Word} {index : Nat} {bytes : List UInt8} (h : Wraps bytes image)
    (hlength : bytes.length = 16 * index) :
    Wraps (bytes ++ Binary.write words)
      (((rows rowLength words).zipIdx index).foldl
        (fun image (row, index) => (rowRecord index row).storeIn image) image) := by
  induction words using rows.induct rowLength generalizing index bytes image with
  | case1 => simpa [IntelHex.rows, Binary.write] using h
  | case2 a rest ih =>
    -- the first row holds eight words, unless no row follows it
    let row := a :: rest.take (rowLength - 1)
    let tail := rest.drop (rowLength - 1)
    have hsplit : Binary.write (a :: rest) = Binary.write row ++ Binary.write tail := by
      rw [← Binary.write_append, List.cons_append, List.take_append_drop]
    have hrow : (Binary.write row).length = 2 * min rowLength (rest.length + 1) := by
      rw [Binary.length_write, List.length_cons, List.length_take, rowLength]
      omega
    have hstep : Wraps (bytes ++ Binary.write row) ((rowRecord index row).storeIn image) := by
      rw [Record.storeIn, toNat_address_rowRecord, ← hlength]
      apply h.store
      · omega
      · rw [hrow, rowLength]
        omega
    rw [IntelHex.rows, List.zipIdx_cons, List.foldl_cons, hsplit, ← List.append_assoc]
    by_cases htail : tail = []
    · have hnil : IntelHex.rows rowLength tail = [] := by rw [htail, IntelHex.rows]
      rw [hnil, htail]
      simpa [Binary.write] using hstep
    · apply ih hstep
      have hlen : rowLength - 1 < rest.length := by
        simpa [tail] using htail
      rw [List.length_append, hrow, hlength]
      rw [rowLength] at hlen ⊢
      omega

/-- The records of a file, without the one that ends it. -/
theorem wraps_rowRecords (words : List Word) :
    Wraps (Binary.write words)
      (((rows rowLength words).zipIdx.map fun (row, index) => rowRecord index row).foldl
        (fun image r => r.storeIn image) #[]) := by
  rw [List.foldl_map]
  exact wraps_nil.rows rfl

/-- Words are pairs of bytes, so they wrap at half the number of bytes. -/
theorem Wraps.getD_words {words result : List Word} (h : Wraps (Binary.write words) image)
    (hresult : Binary.write result = image.toList) {i : Nat} (hi : i < result.length) :
    result.getD i 0 = words.getD (lastPlace 32768 words.length i) 0 := by
  have hsize : 2 * result.length = image.size := by
    rw [← Binary.length_write, hresult, Array.length_toList]
  have hbyte : ∀ b < 2, (Binary.write result).getD (2 * i + b) 0 =
      (Binary.write words).getD (2 * lastPlace 32768 words.length i + b) 0 := by
    intro b hb
    have hlast : lastPlace 65536 (2 * words.length) (2 * i + b) =
        2 * lastPlace 32768 words.length i + b := by
      have hlen := h.size_eq
      rw [Binary.length_write] at hlen
      unfold lastPlace
      omega
    have hget := h.getD_eq (2 * i + b) (by omega)
    rw [Binary.length_write, hlast] at hget
    rw [hresult, ← hget, List.getD_eq_getElem?_getD, Array.getElem?_toList,
      Array.getD_eq_getD_getElem?]
  have hlow := hbyte 0 (by decide)
  have hhigh := hbyte 1 (by decide)
  rw [Nat.add_zero, Nat.add_zero, (Binary.getD_write _ _).1, (Binary.getD_write _ _).1] at hlow
  rw [(Binary.getD_write _ _).2, (Binary.getD_write _ _).2] at hhigh
  rw [← Word.ofBytes_lowByte_highByte (result.getD i 0), hlow, hhigh,
    Word.ofBytes_lowByte_highByte]

/-- The last place is the largest one below `n` that is congruent to `k`. -/
theorem isGreatest_lastPlace {period n k : Nat} (hn : k < n) (hk : k < period) :
    IsGreatest {j | j < n ∧ j ≡ k [MOD period]} (lastPlace period n k) := by
  have hrounds : period * ((n - 1 - k) / period) ≤ n - 1 - k := Nat.mul_div_le _ _
  refine ⟨⟨?_, ?_⟩, ?_⟩
  · unfold lastPlace
    omega
  · exact Nat.add_mul_mod_self_left k period _
  · rintro j ⟨hj, hmod⟩
    by_cases hle : j ≤ k
    · exact hle.trans (Nat.le_add_right _ _)
    · obtain ⟨rounds, hrounds⟩ := (Nat.modEq_iff_dvd' (Nat.le_of_not_le hle)).mp hmod.symm
      have hfit : rounds ≤ (n - 1 - k) / period := by
        rw [Nat.le_div_iff_mul_le (by omega), Nat.mul_comm]
        omega
      calc
        j = k + period * rounds := by omega
        _ ≤ k + period * ((n - 1 - k) / period) :=
          Nat.add_le_add_left (Nat.mul_le_mul_left period hfit) k

/-- A written file is read back, word by word the last one that went to its address. -/
theorem read_encode_write (words : List Word) :
    ∃ result, read (Utf8.encode (write words)) = .ok result ∧
      result.length = min words.length 32768 ∧
      ∀ i < result.length, result[i]? = words[lastPlace 32768 words.length i]? := by
  have hwraps := wraps_rowRecords words
  have hread := read_encode_flatMap_line (dataRecord_of_mem words)
  generalize ((rows rowLength words).zipIdx.map fun (row, index) => rowRecord index row).foldl
    (fun image r => r.storeIn image) #[] = image at hwraps hread
  have hsize := hwraps.size_eq
  rw [Binary.length_write] at hsize
  obtain ⟨result, hresult⟩ : ∃ result, Binary.write result = image.toList :=
    Binary.exists_write_eq (by rw [Array.length_toList]; omega)
  have hlength : result.length = min words.length 32768 := by
    have htwice := Binary.length_write result
    rw [hresult, Array.length_toList] at htwice
    omega
  refine ⟨result, ?_, hlength, fun i hi => ?_⟩
  · rw [← hresult, Binary.read_write_words] at hread
    rw [write_eq_flatMap_line]
    exact hread
  · have hj : lastPlace 32768 words.length i < words.length := by
      unfold lastPlace
      omega
    have hget := hwraps.getD_words hresult hi
    rw [List.getD_eq_getElem _ _ hi, List.getD_eq_getElem _ _ hj] at hget
    rw [List.getElem?_eq_getElem hi, List.getElem?_eq_getElem hj, hget]

end IntelHex

/-- A file in Intel HEX is read back as far as its addresses reach: of the words that go to one
address, which are those with the same index modulo 32768, the last one is there. So all words are
read back if they fit. -/
theorem read_write_hex (words : List Word) :
    ∃ result, read .hex (write .hex words) = .ok result ∧
      result.length = min words.length 32768 ∧
      (∀ i < result.length, ∃ j, IsGreatest {j | j < words.length ∧ j ≡ i [MOD 32768]} j ∧
        result[i]? = words[j]?) ∧
      (words.length ≤ 32768 → result = words) := by
  obtain ⟨result, hread, hlength, hget⟩ := IntelHex.read_encode_write words
  refine ⟨result, hread, hlength, fun i hi => ?_, fun hfit => ?_⟩
  · exact ⟨_, IntelHex.isGreatest_lastPlace (by omega) (by omega), hget i hi⟩
  · apply List.ext_getElem?
    intro i
    by_cases hi : i < result.length
    · have hlast : IntelHex.lastPlace 32768 words.length i = i := by
        unfold IntelHex.lastPlace
        omega
      rw [hget i hi, hlast]
    · rw [List.getElem?_eq_none (by omega), List.getElem?_eq_none (by omega)]

/-- Of 32769 words the last overwrites the first and no other; two words are read back as they
are. -/
theorem read_write_hex_wrapped :
    (∃ result, read .hex (write .hex (List.replicate 32768 0xE001 ++ [0xE002])) = .ok result ∧
      result.length = 32768 ∧ result[0]? = some 0xE002 ∧ result[1]? = some 0xE001) ∧
      read .hex (write .hex [0xE001, 0xE002]) = .ok [0xE001, 0xE002] := by
  constructor
  · have hwords : (List.replicate 32768 (0xE001 : Word) ++ [0xE002]).length = 32769 := by
      rw [List.length_append, List.length_replicate, List.length_singleton]
    obtain ⟨result, hread, hlength, hget, -⟩ :=
      read_write_hex (List.replicate 32768 0xE001 ++ [0xE002])
    rw [hwords] at hlength hget
    refine ⟨result, hread, hlength, ?_, ?_⟩
    · obtain ⟨j, ⟨⟨hj, -⟩, hmax⟩, hword⟩ := hget 0 (by omega)
      have hle : 32768 ≤ j := hmax ⟨by decide, by decide⟩
      obtain rfl : j = 32768 := by omega
      rw [hword, List.getElem?_append_right (by rw [List.length_replicate]),
        List.length_replicate]
      rfl
    · obtain ⟨j, ⟨⟨hj, hmod⟩, -⟩, hword⟩ := hget 1 (by omega)
      have hone : j % 32768 = 1 := hmod
      obtain rfl : j = 1 := by omega
      rw [hword, List.getElem?_append_left (by rw [List.length_replicate]; decide),
        List.getElem?_replicate]
      rfl
  · obtain ⟨result, hread, -, -, hfit⟩ := read_write_hex [0xE001, 0xE002]
    rw [hread, hfit (by decide)]

end PioKit.WordFile
