import PioKit.Proofs.Records
import PioKit.Proofs.RoundTrip

/-!
# The format of a written file

What the lines of an Intel HEX file look like, said in numbers and without the writer: rows of eight
words, the count and the address of each row as functions of its number, hexadecimal digits in upper
case, and a sum that is a multiple of 256.

The writer cuts the words into rows by recursion, so row number `k` is first found again as a stretch of
the words (`getElem?_rows`). It carries the address from row to row: only the last row is short, so the
address of row number `k` is `16 * k`, up to the wrap (`writeRows_rows`). Within a row it carries the sum of
the bytes (`writeData_eq`), which makes the line that of a record (`writeRow_eq_line`).
-/

namespace PioKit.WordFile

open Text (Utf8.encode)

namespace IntelHex

/-! ## Rows -/

section Rows

variable {α : Type}

theorem length_rows (l : List α) : (rows rowLength l).length = (l.length + 7) / 8 := by
  induction l using rows.induct rowLength with
  | case1 => simp [rows]
  | case2 a rest ih =>
    rw [rows, List.length_cons, ih, List.length_drop, List.length_cons, rowLength]
    omega

/-- Row number `k` holds the eight elements from number `8 * k` on, or those that are left. -/
theorem getElem?_rows {l : List α} {k : Nat} (h : 8 * k < l.length) :
    (rows rowLength l)[k]? = some ((l.drop (8 * k)).take 8) := by
  induction l using rows.induct rowLength generalizing k with
  | case1 => cases h
  | case2 a rest ih =>
    rw [rows]
    cases k with
    | zero => rfl
    | succ k =>
      rw [List.length_cons] at h
      have hrest : 8 * k < (rest.drop (rowLength - 1)).length := by
        rw [List.length_drop, rowLength]
        omega
      have hdrop : 8 * (k + 1) = 8 * k + 7 + 1 := by omega
      rw [List.getElem?_cons_succ, ih hrest, List.drop_drop, hdrop, List.drop_succ_cons, rowLength,
        Nat.add_comm]

end Rows

/-! ## The writer's loop -/

theorem length_le_of_mem_rows {α : Type} {size : Nat} (hsize : 0 < size) {l row : List α}
    (h : row ∈ rows size l) : row.length ≤ size := by
  induction l using rows.induct size with
  | case1 =>
    rw [rows] at h
    cases h
  | case2 a rest ih =>
    rw [rows] at h
    rcases List.mem_cons.mp h with rfl | h
    · rw [List.length_cons, List.length_take]
      omega
    · exact ih h

/-- The data record of row number `index`. -/
def rowRecord (index : Nat) (row : List Word) : Record where
  address := BitVec.ofNat 16 (2 * rowLength * index)
  kind := dataKind
  data := Binary.write row

/-- The records of a list of words. -/
def records (words : List Word) : List Record :=
  (rows rowLength words).zipIdx.map (fun (row, index) => rowRecord index row) ++ [endRecord]

theorem toNat_address_rowRecord (index : Nat) (row : List Word) :
    (rowRecord index row).address.toNat = 16 * index % 65536 :=
  BitVec.toNat_ofNat (2 * rowLength * index) 16

theorem data_rowRecord (index : Nat) (row : List Word) :
    (rowRecord index row).data = Binary.write row := rfl

theorem lowByte_eq_ofNat (w : Word) : w.lowByte = UInt8.ofNat (w.toNat % 256) := by
  apply UInt8.toNat_inj.mp
  simp [Word.lowByte]

theorem highByte_eq_ofNat (w : Word) : w.highByte = UInt8.ofNat (w.toNat / 256) := by
  apply UInt8.toNat_inj.mp
  simp [Word.highByte, Nat.shiftRight_eq_div_pow]

/-- Writing data adds its bytes to the sum one by one. -/
theorem writeData_eq (sum : UInt8) (data : List UInt8) :
    writeData sum data = (data.flatMap digits, data.foldl (· + ·) sum) := by
  induction data generalizing sum with
  | nil => rfl
  | cons byte data ih => rw [writeData, ih, List.flatMap_cons, List.foldl_cons]

theorem hex_four_toNat (address : Word) :
    Numeral.hex 4 address.toNat = digits address.highByte ++ digits address.lowByte := by
  have hhigh : address.toNat / 256 < 256 := by
    have haddress : address.toNat < 65536 := address.isLt
    omega
  rw [Numeral.hex_four, highByte_eq_ofNat, lowByte_eq_ofNat, digits, digits,
    UInt8.toNat_ofNat_of_lt' hhigh, UInt8.toNat_ofNat_of_lt' (Nat.mod_lt _ (by decide))]

/-- The line of a row is that of its record. -/
theorem writeRow_eq_line (address : Word) {data : List UInt8} (h : data.length ≤ 255) :
    writeRow address data = Record.line ⟨address, dataKind, data⟩ := by
  have hcount : Numeral.hex 2 data.length = digits (UInt8.ofNat data.length) := by
    rw [digits, UInt8.toNat_ofNat', Nat.mod_eq_of_lt (by omega)]
  have hkind : ['0', '0'] = digits dataKind := by decide
  have hsum : data.foldl (· + ·)
      (UInt8.ofNat data.length + address.highByte + address.lowByte) =
        (Record.body ⟨address, dataKind, data⟩).foldl (· + ·) 0 := by
    simp [Record.body, dataKind]
  rw [writeRow, writeData_eq, hsum, hcount, hex_four_toNat, hkind]
  simp [Record.line, Record.body, Record.checksum]

theorem line_endRecord : endRecord.line = endLine := by
  decide

/-- The rows from row number `index` on. The address is right for every row because all rows but the last
hold eight words. -/
theorem writeRows_rows (index : Nat) (words : List Word) :
    writeRows (BitVec.ofNat 16 (2 * rowLength * index)) (rows rowLength words) =
      (((rows rowLength words).zipIdx index).map (fun entry => rowRecord entry.2 entry.1) ++
        [endRecord]).flatMap Record.line := by
  induction words using rows.induct rowLength generalizing index with
  | case1 =>
    rw [rows, writeRows, ← line_endRecord]
    simp
  | case2 a rest ih =>
    let row := a :: rest.take (rowLength - 1)
    let tail := rest.drop (rowLength - 1)
    have hlength : (Binary.write row).length = 2 * min rowLength (rest.length + 1) := by
      rw [Binary.length_write, List.length_cons, List.length_take, rowLength]
      omega
    have hline : writeRow (BitVec.ofNat 16 (2 * rowLength * index)) (Binary.write row) =
        (rowRecord index row).line := by
      apply writeRow_eq_line
      rw [hlength, rowLength]
      omega
    have htail : writeRows (BitVec.ofNat 16 (2 * rowLength * index) +
        BitVec.ofNat 16 (Binary.write row).length) (rows rowLength tail) =
          (((rows rowLength tail).zipIdx (index + 1)).map (fun entry => rowRecord entry.2 entry.1) ++
            [endRecord]).flatMap Record.line := by
      by_cases hnil : tail = []
      · -- without a further row the address is not used any more
        rw [hnil, rows, writeRows, ← line_endRecord]
        simp
      · have hfull : rowLength ≤ rest.length + 1 := by
          have hlt : rowLength - 1 < rest.length := by simpa [tail] using hnil
          omega
        have haddress : 2 * rowLength * index + (Binary.write row).length =
            2 * rowLength * (index + 1) := by
          rw [hlength, Nat.min_eq_left hfull, Nat.mul_succ]
        rw [← BitVec.ofNat_add, haddress]
        exact ih (index + 1)
    rw [rows, writeRows, hline, htail, List.zipIdx_cons, List.map_cons, List.cons_append,
      List.flatMap_cons]

theorem write_eq_flatMap_line (words : List Word) : write words = (records words).flatMap Record.line :=
  writeRows_rows 0 words

theorem dataRecord_of_mem (words : List Word) :
    ∀ r ∈ (rows rowLength words).zipIdx.map fun (row, index) => rowRecord index row,
      r.kind = dataKind ∧ r.data.length ≤ 255 := by
  intro r hr
  obtain ⟨⟨row, index⟩, hmem, rfl⟩ := List.mem_map.mp hr
  have hlen : row.length ≤ rowLength :=
    length_le_of_mem_rows (by decide) (List.fst_mem_of_mem_zipIdx hmem)
  refine ⟨rfl, ?_⟩
  rw [rowLength] at hlen
  rw [data_rowRecord, Binary.length_write]
  omega

/-! ## Lines -/

/-- The upper-case hexadecimal digit of a value below 16. -/
def hexDigit (d : Nat) : Char :=
  ['0', '1', '2', '3', '4', '5', '6', '7', '8', '9', 'A', 'B', 'C', 'D', 'E', 'F'].getD d '0'

/-- The line of a list of bytes, with its line end. -/
def byteLine (bytes : List UInt8) : List Char :=
  ':' :: bytes.flatMap (fun byte => [hexDigit (byte.toNat / 16), hexDigit (byte.toNat % 16)]) ++ ['\n']

/-- The bytes of data record number `k`: count, address, kind, data and one byte more, which makes the
sum of all a multiple of 256. -/
structure IsDataRow (words : List Word) (k : Nat) (bytes : List UInt8) : Prop where
  eq_append : ∃ checksum, bytes =
    [UInt8.ofNat (2 * min 8 (words.length - 8 * k)),
      UInt8.ofNat (16 * k % 65536 / 256), UInt8.ofNat (16 * k % 65536 % 256), 0x00] ++
    ((words.drop (8 * k)).take 8).flatMap
      (fun word => [UInt8.ofNat (word.toNat % 256), UInt8.ofNat (word.toNat / 256)]) ++ [checksum]
  sum_mod : bytes.foldl (fun total byte => total + byte.toNat) 0 % 256 = 0

theorem digits_eq_hexDigit (byte : UInt8) :
    digits byte = [hexDigit (byte.toNat / 16), hexDigit (byte.toNat % 16)] := by
  have htable : ∀ d < 16, Numeral.upperDigit d = hexDigit d := by decide
  have hlt := byte.toNat_lt
  rw [digits_eq, htable _ (by omega), htable _ (by omega)]

theorem line_eq_byteLine (r : Record) : r.line = byteLine (r.body ++ [r.checksum]) := by
  have hdigits : digits =
      fun byte => [hexDigit (byte.toNat / 16), hexDigit (byte.toNat % 16)] := by
    funext byte
    exact digits_eq_hexDigit byte
  rw [Record.line, byteLine, hdigits]

theorem byteLine_endRecord :
    byteLine (endRecord.body ++ [endRecord.checksum]) = ":00000001FF\n".toList := by
  decide

theorem write_eq_flatMap_ofNat (words : List Word) :
    Binary.write words =
      words.flatMap fun word =>
        [UInt8.ofNat (word.toNat % 256), UInt8.ofNat (word.toNat / 256)] := by
  rw [Binary.write]
  congr 1
  funext word
  rw [Word.bytes, lowByte_eq_ofNat, highByte_eq_ofNat]

/-- Adding bytes is adding their values and dropping what a byte cannot hold. -/
theorem foldl_add_eq_ofNat (bytes : List UInt8) (n : Nat) :
    bytes.foldl (· + ·) (UInt8.ofNat n) =
      UInt8.ofNat (bytes.foldl (fun total byte => total + byte.toNat) n) := by
  induction bytes generalizing n with
  | nil => rfl
  | cons byte bytes ih =>
    have hstep : UInt8.ofNat n + byte = UInt8.ofNat (n + byte.toNat) := by
      rw [UInt8.ofNat_add, UInt8.ofNat_toNat]
    rw [List.foldl_cons, List.foldl_cons, hstep, ih]

theorem Record.sum_mod (r : Record) :
    (r.body ++ [r.checksum]).foldl (fun total byte => total + byte.toNat) 0 % 256 = 0 := by
  have hzero : (r.body ++ [r.checksum]).foldl (· + ·) (UInt8.ofNat 0) = 0 :=
    (r.checksum_eq_iff r.checksum).mp rfl
  rw [foldl_add_eq_ofNat] at hzero
  have hnat := congrArg UInt8.toNat hzero
  rwa [UInt8.toNat_ofNat'] at hnat

theorem isDataRow_rowRecord {words : List Word} {k : Nat} {row : List Word}
    (h : (rows rowLength words)[k]? = some row) :
    IsDataRow words k ((rowRecord k row).body ++ [(rowRecord k row).checksum]) := by
  have hk : 8 * k < words.length := by
    have hlt := (List.getElem?_eq_some_iff.mp h).1
    rw [length_rows] at hlt
    omega
  have hrow : row = (words.drop (8 * k)).take 8 := by
    rw [getElem?_rows hk] at h
    exact (Option.some.inj h).symm
  have hcount : row.length = min 8 (words.length - 8 * k) := by
    rw [hrow, List.length_take, List.length_drop]
  have haddress := toNat_address_rowRecord k row
  refine ⟨⟨(rowRecord k row).checksum, ?_⟩, Record.sum_mod _⟩
  rw [Record.body, lowByte_eq_ofNat, highByte_eq_ofNat, haddress, data_rowRecord,
    Binary.length_write, hcount, write_eq_flatMap_ofNat, hrow]
  rfl

end IntelHex

open IntelHex

/-- A file in Intel HEX is one line for each eight words begun and the line that ends it. -/
theorem write_hex_eq_lines (words : List Word) :
    ∃ rows : List (List UInt8), rows.length = (words.length + 7) / 8 ∧
      (∀ k bytes, rows[k]? = some bytes → IsDataRow words k bytes) ∧
      write .hex words = Utf8.encode (rows.flatMap byteLine ++ ":00000001FF\n".toList) := by
  refine ⟨(rows rowLength words).zipIdx.map fun entry =>
    (rowRecord entry.2 entry.1).body ++ [(rowRecord entry.2 entry.1).checksum], ?_, ?_, ?_⟩
  · rw [List.length_map, List.length_zipIdx, length_rows]
  · intro k bytes hbytes
    rw [List.getElem?_map, List.getElem?_zipIdx, Option.map_map, Option.map_eq_some_iff] at hbytes
    obtain ⟨row, hrow, rfl⟩ := hbytes
    have hisRow := isDataRow_rowRecord hrow
    simpa using hisRow
  · rw [write, IntelHex.write_eq_flatMap_line, records, List.flatMap_append, List.flatMap_singleton,
      line_eq_byteLine endRecord, byteLine_endRecord, List.flatMap_map, List.flatMap_map]
    simp only [line_eq_byteLine]

end PioKit.WordFile
