import PioKit.Proofs.WrittenRecords

/-!
# Damaged files

One byte of a record changes the sum of the record unless it is written again as it was, so a reader that
sums up all bytes notices it. The count byte alone decides how many bytes are summed up: a larger one asks
for bytes that the line does not have. Every record before the damaged one is a data record, so the reader
does not stop before it.
-/

namespace PioKit.WordFile

open Text (Utf8.encode)

namespace IntelHex

variable {r : Record} {rs : List Record} {bytes : List UInt8} {cs : List Char} {old new : UInt8}
  {high low : Char} {i k n : Nat}

/-! ## Sums -/

theorem eq_of_foldl_add_eq {a b : UInt8} (h : bytes.foldl (· + ·) a = bytes.foldl (· + ·) b) :
    a = b := by
  induction bytes generalizing a b with
  | nil => exact h
  | cons byte bytes ih =>
    have hstep : a + byte = b + byte := ih h
    grind

/-- Another byte in one place changes the sum. -/
theorem foldl_add_set_ne (hold : bytes[i]? = some old) (hne : new ≠ old) (total : UInt8) :
    (bytes.set i new).foldl (· + ·) total ≠ bytes.foldl (· + ·) total := by
  induction bytes generalizing i total with
  | nil => cases hold
  | cons byte bytes ih =>
    cases i with
    | zero =>
      cases hold
      intro hsum
      have hstep : total + new = total + old := eq_of_foldl_add_eq hsum
      exact hne (by grind)
    | succ i => exact ih hold (total + byte)

/-! ## Digits -/

/-- Digits, and the colon in front of them, are characters of ASCII that are printed. -/
theorem SpellsBytes.toNat_bounds (h : SpellsBytes cs bytes) :
    ∀ c ∈ ':' :: cs, 48 ≤ c.toNat ∧ c.toNat ≤ 122 := by
  rw [List.forall_mem_cons]
  refine ⟨by decide, ?_⟩
  induction h with
  | nil => exact List.forall_mem_nil _
  | cons hhigh hlow _ ih =>
    rw [List.forall_mem_cons, List.forall_mem_cons]
    exact ⟨Numeral.toNat_bounds_of_digit? hhigh, Numeral.toNat_bounds_of_digit? hlow, ih⟩

theorem SpellsBytes.trim_cons (h : SpellsBytes cs bytes) : Text.trim (':' :: cs) = ':' :: cs := by
  apply Text.trim_of_forall_false
  intro c hc
  have hbounds := h.toNat_bounds c hc
  exact Text.isBlank_of_toNat (by omega) (by omega)

/-- Replaces two characters of a text. -/
def replacePair (place : Nat) (high low : Char) (text : List Char) : List Char :=
  (text.set place high).set (place + 1) low

theorem replacePair_append_left {l : List Char} (h : n + 1 < l.length) (m : List Char) :
    replacePair n high low (l ++ m) = replacePair n high low l ++ m := by
  have hset : n + 1 < (l.set n high).length := by rwa [List.length_set]
  rw [replacePair, List.set_append_left _ _ (by omega), List.set_append_left _ _ hset, replacePair]

theorem replacePair_append_right (l : List Char) (n : Nat) (m : List Char) :
    replacePair (l.length + n) high low (l ++ m) = l ++ replacePair n high low m := by
  rw [replacePair, List.set_append_right _ _ (by omega), List.set_append_right _ _ (by omega),
    replacePair]
  congr 3 <;> omega

/-- The digits of byte number `i` exchanged for those of another byte. -/
theorem SpellsBytes.replacePair (h : SpellsBytes cs bytes) (hnew : SpellsBytes [high, low] [new])
    (hi : i < bytes.length) :
    SpellsBytes (replacePair (2 * i) high low cs) (bytes.set i new) := by
  induction h generalizing i with
  | nil => cases hi
  | cons hhigh hlow htail ih =>
    cases i with
    | zero =>
      cases hnew with
      | cons hhigh' hlow' => exact .cons hhigh' hlow' htail
    | succ i => exact .cons hhigh hlow (ih (Nat.lt_of_succ_lt_succ hi))

theorem SpellsBytes.takeBytes_of_lt (h : SpellsBytes cs bytes) (hn : bytes.length < n) :
    takeBytes n cs = .error .shortRecord := by
  induction h generalizing n with
  | nil =>
    obtain ⟨n, rfl⟩ := Nat.exists_eq_add_of_lt hn
    rfl
  | cons hhigh hlow _ ih =>
    cases n with
    | zero => cases hn
    | succ n =>
      rw [takeBytes, takeByte_of_digit? hhigh hlow]
      simp [ih (Nat.lt_of_succ_lt_succ hn), bind, Except.bind]

/-- The count asks for more bytes than there are, with the checksum behind them. -/
theorem SpellsBytes.readRecord_of_le {count high low kind : UInt8} {rest : List UInt8}
    (h : SpellsBytes cs (count :: high :: low :: kind :: rest)) (hrest : rest.length ≤ count.toNat) :
    readRecord cs = .error .shortRecord := by
  obtain ⟨cs₁, h₁, h⟩ := h.takeByte_append []
  obtain ⟨cs₂, h₂, h⟩ := h.takeByte_append []
  obtain ⟨cs₃, h₃, h⟩ := h.takeByte_append []
  obtain ⟨cs₄, h₄, h⟩ := h.takeByte_append []
  simp only [List.append_nil] at h₁ h₂ h₃ h₄
  simp only [readRecord, h₁, h₂, h₃, h₄, bind, Except.bind]
  rcases Nat.lt_or_eq_of_le hrest with hlt | heq
  · rw [h.takeBytes_of_lt hlt]
  · -- the data is there, but nothing behind it
    have hdata : SpellsBytes cs₄ (rest ++ []) := by rwa [List.append_nil]
    obtain ⟨cs₅, h₅, hnil⟩ := hdata.takeBytes_append []
    cases hnil
    rw [← heq]
    simp only [List.append_nil] at h₅
    rw [h₅]
    rfl

/-! ## Lines -/

/-- Bytes with a count in front that fits them are those of a record and one more. -/
theorem exists_body_append_eq (hlength : bytes.length = n + 5)
    (hcount : bytes[0]? = some (UInt8.ofNat n)) :
    ∃ r : Record, ∃ sum, r.data.length = n ∧ r.body ++ [sum] = bytes := by
  match bytes with
  | count :: high :: low :: kind :: rest =>
    cases hcount
    have hrest : rest.length = n + 1 := by simpa using hlength
    rcases List.eq_nil_or_concat rest with rfl | ⟨data, sum, rfl⟩
    · cases hrest
    · rw [List.concat_eq_append, List.length_append, List.length_singleton] at hrest
      have hdata : data.length = n := by omega
      refine ⟨⟨Word.ofBytes low high, kind, data⟩, sum, hdata, ?_⟩
      simp [Record.body, hdata]

theorem SpellsBytes.readLine_of_sum_ne (h : SpellsBytes cs bytes) (hn : n ≤ 255)
    (hlength : bytes.length = n + 5) (hcount : bytes[0]? = some (UInt8.ofNat n))
    (hsum : bytes.foldl (· + ·) 0 ≠ 0) :
    readLine (':' :: cs) = .error (.checksumMismatch (String.ofList (':' :: cs))) := by
  obtain ⟨r, sum, hdata, rfl⟩ := exists_body_append_eq hlength hcount
  have hread := h.readRecord_append (hdata ▸ hn) []
  rw [List.append_nil] at hread
  have hne : r.checksum ≠ sum := fun heq => hsum ((r.checksum_eq_iff sum).mp heq)
  rw [readLine, h.trim_cons]
  simp only [hread, bind, Except.bind, if_neg hne]
  rfl

/-- A record with the digits of one byte replaced. -/
theorem exists_spellsBytes_replacePair_text (hi : i < (r.body ++ [r.checksum]).length)
    (hnew : SpellsBytes [high, low] [new]) :
    ∃ cs, replacePair (2 * i + 1) high low r.text = ':' :: cs ∧
      SpellsBytes cs ((r.body ++ [r.checksum]).set i new) :=
  ⟨_, rfl, (Record.spellsBytes_digits (r.body ++ [r.checksum])).replacePair hnew hi⟩

/-- The fault of a line that is a record with one byte replaced. -/
def damageFault (i : Nat) (line : List Char) : Fault :=
  if i = 0 then .shortRecord else .checksumMismatch (String.ofList line)

theorem readLine_replacePair_text (hfits : r.data.length ≤ 255)
    (hold : (r.body ++ [r.checksum])[i]? = some old) (hnew : SpellsBytes [high, low] [new])
    (hne : new ≠ old) (hcount : i = 0 → old < new) :
    readLine (replacePair (2 * i + 1) high low r.text) =
      .error (damageFault i (replacePair (2 * i + 1) high low r.text)) := by
  have hi : i < (r.body ++ [r.checksum]).length := (List.getElem?_eq_some_iff.mp hold).1
  obtain ⟨cs, htext, hspells⟩ := exists_spellsBytes_replacePair_text hi hnew
  rw [htext]
  cases i with
  | zero =>
    cases hold
    -- the larger count is at least the number of bytes behind the kind
    have hlarger : (r.data ++ [r.checksum]).length ≤ new.toNat := by
      have hlt : (UInt8.ofNat r.data.length).toNat < new.toNat := hcount rfl
      rw [UInt8.toNat_ofNat'] at hlt
      rw [List.length_append, List.length_singleton]
      omega
    have hread := SpellsBytes.readRecord_of_le hspells hlarger
    rw [readLine, hspells.trim_cons]
    simp only [hread, bind, Except.bind]
    rfl
  | succ i =>
    apply hspells.readLine_of_sum_ne hfits
    · rw [List.length_set]
      simp [Record.body]
    · rfl
    · have hset := foldl_add_set_ne hold hne 0
      rwa [(r.checksum_eq_iff r.checksum).mp rfl] at hset

/-! ## Files -/

/-- Data records are stored one after the other up to the first line that is refused. -/
theorem readLines_append_of_error {line : List Char} {fault : Fault}
    (hrs : ∀ r ∈ rs, r.kind = dataKind ∧ r.data.length ≤ 255) (hline : readLine line = .error fault)
    (image : Array UInt8) (rest : List (List UInt8)) :
    readLines image (rs.map (fun r => Utf8.encode r.text) ++ Utf8.encode line :: rest) =
      .error fault := by
  induction rs generalizing image with
  | nil =>
    rw [List.map_nil, List.nil_append, readLines, decodeLine_bind (decodeLine_encode line), hline]
  | cons r rs ih =>
    rw [List.forall_mem_cons] at hrs
    obtain ⟨⟨hkind, hfits⟩, hrs⟩ := hrs
    rw [List.map_cons, List.cons_append, readLines, decodeLine_bind (decodeLine_encode r.text),
      (Record.inLine_text hfits).readLine_eq, Record.action, if_pos hkind]
    exact ih hrs (store image r.address.toNat r.data)

/-- Where the digits of byte number `i` of record number `k` stand in a file. -/
def bytePlace (rs : List Record) (k i : Nat) : Nat :=
  ((rs.take k).flatMap Record.line).length + (2 * i + 1)

theorem length_flatMap_digits (bytes : List UInt8) :
    (bytes.flatMap digits).length = 2 * bytes.length := by
  induction bytes with
  | nil => rfl
  | cons byte bytes ih =>
    rw [List.flatMap_cons, List.length_append, ih, digits_eq, List.length_cons]
    simp only [List.length_cons, List.length_nil]
    omega

/-- The lines of a file with one byte of a record replaced. -/
theorem replacePair_flatMap_line {before after : List Record}
    (hi : i < (r.body ++ [r.checksum]).length) :
    replacePair ((before.flatMap Record.line).length + (2 * i + 1)) high low
        ((before ++ r :: after).flatMap Record.line) =
      (before.map Record.text ++ replacePair (2 * i + 1) high low r.text ::
        after.map Record.text).flatMap (· ++ ['\n']) := by
  have hplace : 2 * i + 1 + 1 < r.text.length := by
    rw [Record.text, List.length_cons, length_flatMap_digits]
    omega
  have hsplit : (before ++ r :: after).flatMap Record.line =
      before.flatMap Record.line ++ (r.text ++ ('\n' :: after.flatMap Record.line)) := by
    rw [List.flatMap_append, List.flatMap_cons]
    simp [Record.line, Record.text]
  rw [hsplit, replacePair_append_right, replacePair_append_left hplace, Record.flatMap_line before,
    Record.flatMap_line after, List.flatMap_append, List.flatMap_cons]
  simp

theorem forall_mem_damaged_lines {before after : List Record}
    (hi : i < (r.body ++ [r.checksum]).length) (hnew : SpellsBytes [high, low] [new]) :
    ∀ l ∈ before.map Record.text ++ replacePair (2 * i + 1) high low r.text ::
      after.map Record.text, ∀ c ∈ l, c ≠ '\n' ∧ c ≠ '\r' := by
  rw [List.forall_mem_append, List.forall_mem_cons]
  refine ⟨Record.forall_mem_map_text before, fun c hc => ?_, Record.forall_mem_map_text after⟩
  obtain ⟨cs, hcs, hspells⟩ := exists_spellsBytes_replacePair_text hi hnew
  have hbounds := hspells.toNat_bounds c (hcs ▸ hc)
  constructor
  · rintro rfl
    exact absurd hbounds.1 (by decide)
  · rintro rfl
    exact absurd hbounds.1 (by decide)

theorem read_replacePair {before after : List Record}
    (hbefore : ∀ r ∈ before, r.kind = dataKind ∧ r.data.length ≤ 255)
    (hfits : r.data.length ≤ 255) (hold : (r.body ++ [r.checksum])[i]? = some old)
    (hnew : SpellsBytes [high, low] [new]) (hne : new ≠ old) (hcount : i = 0 → old < new) :
    read (Utf8.encode (replacePair ((before.flatMap Record.line).length + (2 * i + 1)) high low
        ((before ++ r :: after).flatMap Record.line))) =
      .error (damageFault i (replacePair (2 * i + 1) high low r.text)) := by
  have hi : i < (r.body ++ [r.checksum]).length := (List.getElem?_eq_some_iff.mp hold).1
  have hline := readLine_replacePair_text hfits hold hnew hne hcount
  have hlines := readLines_append_of_error hbefore hline #[]
    ((after.map Record.text).map Utf8.encode)
  have hmap : (before.map Record.text).map Utf8.encode =
      before.map fun r => Utf8.encode r.text := List.map_map
  rw [replacePair_flatMap_line hi, read, byteLines_encode_flatMap (forall_mem_damaged_lines hi hnew),
    List.map_append, List.map_cons, hmap, hlines]
  rfl

/-- Every record of a written file that is not the last holds data, and all are short. -/
theorem take_records (words : List Word) {k : Nat} (hk : k < (records words).length) :
    ∀ r ∈ (records words).take k, r.kind = dataKind ∧ r.data.length ≤ 255 := by
  intro r hr
  apply dataRecord_of_mem words
  rw [records, List.length_append, List.length_singleton] at hk
  rw [records, List.take_append_of_le_length (by omega)] at hr
  exact List.mem_of_mem_take hr

theorem length_data_le_of_mem_records {words : List Word} (hr : r ∈ records words) :
    r.data.length ≤ 255 := by
  rw [records, List.mem_append, List.mem_singleton] at hr
  rcases hr with hr | rfl
  · exact (dataRecord_of_mem words r hr).2
  · exact Nat.zero_le 255

end IntelHex

open IntelHex

/-- A written file is refused when one byte of a record is replaced by another. Byte 0 of a record is the
count, which must grow for that; then come the address, the kind, the data and the checksum. -/
theorem read_hex_of_replacedByte (words : List Word) {k i : Nat} {r : Record} {old new : UInt8}
    {high low : Char} (hr : (records words)[k]? = some r)
    (hold : (r.body ++ [r.checksum])[i]? = some old) (hnew : SpellsBytes [high, low] [new])
    (hne : new ≠ old) (hcount : i = 0 → old < new) :
    read .hex (Utf8.encode
        (replacePair (bytePlace (records words) k i) high low (IntelHex.write words))) =
      .error (damageFault i (replacePair (2 * i + 1) high low r.text)) := by
  obtain ⟨hk, hget⟩ := List.getElem?_eq_some_iff.mp hr
  have hsplit : records words = (records words).take k ++ r :: (records words).drop (k + 1) := by
    rw [← hget, List.getElem_cons_drop, List.take_append_drop]
  have hfits : r.data.length ≤ 255 := length_data_le_of_mem_records (List.mem_of_getElem? hr)
  have hwrite : IntelHex.write words =
      ((records words).take k ++ r :: (records words).drop (k + 1)).flatMap Record.line := by
    rw [write_eq_flatMap_line, ← hsplit]
  rw [hwrite]
  exact read_replacePair (take_records words hk) hfits hold hnew hne hcount

/-- Of two words, a data byte changed and written with a small digit, a count that is one too large, and
the end of the file taken for data. -/
theorem read_hex_of_replacedByte_two :
    IntelHex.write [0x80A0, 0xA0C7] = ":04000000A080C7A075\n:00000001FF\n".toList ∧
      read .hex (Utf8.encode ":04000000a180C7A075\n:00000001FF\n".toList) =
        .error (.checksumMismatch ":04000000a180C7A075") ∧
      read .hex (Utf8.encode ":05000000A080C7A075\n:00000001FF\n".toList) = .error .shortRecord ∧
      read .hex (Utf8.encode ":04000000A080C7A075\n:00000000FF\n".toList) =
        .error (.checksumMismatch ":00000000FF") := by
  have hrows : rows rowLength [(0x80A0 : Word), 0xA0C7] = [[0x80A0, 0xA0C7]] := by
    simp [rows, rowLength]
  have hrecords : records [0x80A0, 0xA0C7] =
      [⟨0, dataKind, [0xA0, 0x80, 0xC7, 0xA0]⟩, endRecord] := by
    rw [records, hrows]
    rfl
  have hwrite : IntelHex.write [0x80A0, 0xA0C7] =
      ":04000000A080C7A075\n:00000001FF\n".toList := by
    rw [write_eq_flatMap_line, hrecords]
    decide
  have hdata := @read_hex_of_replacedByte [0x80A0, 0xA0C7] 0 4 _ 0xA0 0xA1 'a' '1'
    (by rw [hrecords]; rfl) rfl (.cons (h := 10) (l := 1) rfl rfl .nil) (by decide) (by decide)
  have hlarger := @read_hex_of_replacedByte [0x80A0, 0xA0C7] 0 0 _ 0x04 0x05 '0' '5'
    (by rw [hrecords]; rfl) rfl (.cons (h := 0) (l := 5) rfl rfl .nil) (by decide) (by decide)
  have hkind := @read_hex_of_replacedByte [0x80A0, 0xA0C7] 1 3 _ 0x01 0x00 '0' '0'
    (by rw [hrecords]; rfl) rfl (.cons (h := 0) (l := 0) rfl rfl .nil) (by decide) (by decide)
  have htexts :
      let rs : List Record := [⟨0, dataKind, [0xA0, 0x80, 0xC7, 0xA0]⟩, endRecord]
      let text := ":04000000A080C7A075\n:00000001FF\n".toList
      replacePair (bytePlace rs 0 4) 'a' '1' text = ":04000000a180C7A075\n:00000001FF\n".toList ∧
      replacePair (bytePlace rs 0 0) '0' '5' text = ":05000000A080C7A075\n:00000001FF\n".toList ∧
      replacePair (bytePlace rs 1 3) '0' '0' text = ":04000000A080C7A075\n:00000000FF\n".toList := by
    decide
  rw [hrecords, hwrite] at hdata hlarger hkind
  rw [htexts.1] at hdata
  rw [htexts.2.1] at hlarger
  rw [htexts.2.2] at hkind
  exact ⟨hwrite, hdata, hlarger, hkind⟩

end PioKit.WordFile
