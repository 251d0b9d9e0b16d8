import PioKit.Proofs.Lines
import PioKit.Proofs.Numerals
import PioKit.WordFile.IntelHex

/-!
# Reading records

A line spells a record by two hexadecimal digits for each byte (`SpellsBytes`), the last of which makes
the sum of all bytes zero (`Record.InLine`). A file holds data records in lines of their own, among
lines that are none, up to a record that ends it (`Holds`). Reading such a file stores the data of its
records one after the other: `readLines_of_holds`. A file of written records is one of these:
`read_encode_flatMap_line`.
-/

namespace PioKit.WordFile.IntelHex

open Text (Utf8.encode)

variable {r : Record} {rs : List Record} {image : Array UInt8}

/-! ## Bytes as digits -/

/-- Two hexadecimal digits, of either case, for each byte. -/
inductive SpellsBytes : List Char → List UInt8 → Prop
  | nil : SpellsBytes [] []
  | cons {high low : Char} {h l : Nat} {cs : List Char} {bytes : List UInt8}
    (hhigh : Numeral.digit? 16 high = some h) (hlow : Numeral.digit? 16 low = some l)
    (htail : SpellsBytes cs bytes) :
    SpellsBytes (high :: low :: cs) (UInt8.ofNat (16 * h + l) :: bytes)

theorem takeDigits_of_digit? {high low : Char} {h l : Nat}
    (hhigh : Numeral.digit? 16 high = some h) (hlow : Numeral.digit? 16 low = some l)
    (rest : List Char) : takeDigits (high :: low :: rest) = .ok ([high, low], rest) := by
  simp [takeDigits, Numeral.utf8Size_of_digit? hhigh, Numeral.utf8Size_of_digit? hlow]

theorem takeByte_of_digit? {high low : Char} {h l : Nat}
    (hhigh : Numeral.digit? 16 high = some h) (hlow : Numeral.digit? 16 low = some l)
    (rest : List Char) :
    takeByte (high :: low :: rest) = .ok (UInt8.ofNat (16 * h + l), rest) := by
  have hplus : high ≠ '+' := by
    rintro rfl
    have hnone : Numeral.digit? 16 '+' = none := by decide
    rw [hnone] at hhigh
    cases hhigh
  have hvalue : Numeral.ofDigits? 16 [high, low] = some (16 * h + l) := by
    rw [Numeral.ofDigits?_eq_extend?, Numeral.extend?_cons_eq_some_iff]
    refine ⟨h, hhigh, Numeral.extend?_cons_eq_some_iff.mpr ⟨l, hlow, ?_⟩⟩
    rw [Numeral.extend?_nil, Nat.zero_mul, Nat.zero_add, Nat.mul_comm]
  have hbound : 16 * h + l ≤ 0xFF := by
    have := Numeral.lt_of_digit? hhigh
    have := Numeral.lt_of_digit? hlow
    omega
  have hread : readHex 0xFF [high, low] = .ok (16 * h + l) := by
    rw [readHex, mapError_eq_ok_iff, Numeral.readUnsigned_eq_ok_iff (by decide) hplus]
    exact ⟨hvalue, hbound⟩
  simp [takeByte, takeDigits_of_digit? hhigh hlow, hread, bind, Except.bind, pure, Except.pure]

theorem digits_eq (byte : UInt8) :
    digits byte = [Numeral.upperDigit (byte.toNat / 16), Numeral.upperDigit (byte.toNat % 16)] :=
  Numeral.hex_two byte.toNat_lt

namespace SpellsBytes

variable {byte : UInt8} {data bytes : List UInt8} {cs : List Char}

theorem takeByte_append (h : SpellsBytes cs (byte :: bytes)) (rest : List Char) :
    ∃ cs', takeByte (cs ++ rest) = .ok (byte, cs' ++ rest) ∧ SpellsBytes cs' bytes := by
  cases h with
  | cons hhigh hlow htail => exact ⟨_, takeByte_of_digit? hhigh hlow _, htail⟩

theorem takeBytes_append (h : SpellsBytes cs (data ++ bytes)) (rest : List Char) :
    ∃ cs', takeBytes data.length (cs ++ rest) = .ok (data, cs' ++ rest) ∧
      SpellsBytes cs' bytes := by
  induction data generalizing cs with
  | nil => exact ⟨cs, rfl, h⟩
  | cons byte data ih =>
    obtain ⟨cs', hbyte, h'⟩ := h.takeByte_append rest
    obtain ⟨cs'', hdata, h''⟩ := ih h'
    refine ⟨cs'', ?_, h''⟩
    rw [List.length_cons, takeBytes, hbyte]
    simp [hdata, bind, Except.bind, pure, Except.pure]

/-- The digits of a record and of any byte behind it give both back, whatever follows. -/
theorem readRecord_append {sum : UInt8} (h : SpellsBytes cs (r.body ++ [sum]))
    (hfits : r.data.length ≤ 255) (rest : List Char) : readRecord (cs ++ rest) = .ok (r, sum) := by
  have hcount : (UInt8.ofNat r.data.length).toNat = r.data.length := by
    rw [UInt8.toNat_ofNat']
    omega
  obtain ⟨cs₁, h₁, h⟩ := h.takeByte_append rest
  obtain ⟨cs₂, h₂, h⟩ := h.takeByte_append rest
  obtain ⟨cs₃, h₃, h⟩ := h.takeByte_append rest
  obtain ⟨cs₄, h₄, h⟩ := h.takeByte_append rest
  obtain ⟨cs₅, h₅, h⟩ := h.takeBytes_append rest
  obtain ⟨cs₆, h₆, -⟩ := h.takeByte_append rest
  simp only [readRecord, h₁, h₂, h₃, h₄, hcount, h₅, h₆, bind, Except.bind, pure, Except.pure,
    Word.ofBytes_lowByte_highByte]

end SpellsBytes

/-! ## Lines of records -/

namespace Record

/-- A line spells the record: blanks apart, it is a colon and the bytes of the record with one more,
which makes their sum zero. What follows is not looked at. -/
structure InLine (r : Record) (line : List Char) : Prop where
  /-- The number of data bytes is a byte. -/
  fits : r.data.length ≤ 255
  spelled : ∃ sum cs rest, Text.trim line = ':' :: (cs ++ rest) ∧
    SpellsBytes cs (r.body ++ [sum]) ∧ (r.body ++ [sum]).foldl (· + ·) 0 = 0

theorem checksum_eq_iff (r : Record) (sum : UInt8) :
    r.checksum = sum ↔ (r.body ++ [sum]).foldl (· + ·) 0 = 0 := by
  rw [checksum, List.foldl_append]
  generalize r.body.foldl (· + ·) 0 = total
  show 0 - total = sum ↔ total + sum = 0
  grind

theorem InLine.readLine_eq {line : List Char} (h : r.InLine line) : readLine line = r.action := by
  obtain ⟨sum, cs, rest, htrim, hspells, hsum⟩ := h.spelled
  rw [readLine, htrim]
  simp only [hspells.readRecord_append h.fits, bind, Except.bind, (r.checksum_eq_iff sum).mpr hsum,
    if_true]

/-- The line of a record, without its line end. -/
def text (r : Record) : List Char :=
  ':' :: (r.body ++ [r.checksum]).flatMap digits

/-- The line of a record, with its line end. -/
def line (r : Record) : List Char :=
  ':' :: (r.body ++ [r.checksum]).flatMap digits ++ ['\n']

theorem spellsBytes_digits (bytes : List UInt8) : SpellsBytes (bytes.flatMap digits) bytes := by
  induction bytes with
  | nil => exact .nil
  | cons byte bytes ih =>
    have hhigh : byte.toNat / 16 < 16 := by
      have := byte.toNat_lt
      omega
    have hlow : byte.toNat % 16 < 16 := Nat.mod_lt _ (by decide)
    have hcons := SpellsBytes.cons (Numeral.digit?_upperDigit _ hhigh)
      (Numeral.digit?_upperDigit _ hlow) ih
    rw [Nat.div_add_mod, UInt8.ofNat_toNat] at hcons
    rw [List.flatMap_cons, digits_eq]
    exact hcons

theorem forall_mem_text {p : Char → Prop} (hdigit : ∀ d < 16, p (Numeral.upperDigit d))
    (hcolon : p ':') (r : Record) : ∀ c ∈ r.text, p c := by
  rw [text, List.forall_mem_cons]
  refine ⟨hcolon, fun c hc => ?_⟩
  obtain ⟨byte, -, hbyte⟩ := List.mem_flatMap.mp hc
  exact Numeral.forall_mem_hex hdigit 2 byte.toNat c hbyte

theorem forall_mem_map_text (rs : List Record) :
    ∀ l ∈ rs.map text, ∀ c ∈ l, c ≠ '\n' ∧ c ≠ '\r' := by
  intro l hl
  obtain ⟨r, -, rfl⟩ := List.mem_map.mp hl
  exact r.forall_mem_text (by decide) (by decide)

theorem flatMap_line (rs : List Record) :
    rs.flatMap line = (rs.map text).flatMap (· ++ ['\n']) := by
  rw [List.flatMap_map]
  rfl

theorem inLine_text (h : r.data.length ≤ 255) : r.InLine r.text := by
  have htrim : Text.trim r.text = r.text :=
    Text.trim_of_forall_false (r.forall_mem_text (by decide) (by decide))
  refine ⟨h, r.checksum, _, [], ?_, spellsBytes_digits _, (r.checksum_eq_iff _).mp rfl⟩
  rw [htrim, text, List.append_nil]

end Record

/-! ## Files of records -/

/-- The record that ends a file. -/
def endRecord : Record where
  address := 0
  kind := endKind
  data := []

/-- The data records that the lines of a file hold. What follows a record that ends the file is not
looked at. -/
inductive Holds : List (List UInt8) → List Record → Prop
  | nil : Holds [] []
  | data {raw : List UInt8} {line : List Char} {lines : List (List UInt8)} {r : Record}
    {rs : List Record} (hdecode : decodeLine raw = .ok line) (hline : r.InLine line)
    (hkind : r.kind = dataKind) (hrest : Holds lines rs) : Holds (raw :: lines) (r :: rs)
  | other {raw : List UInt8} {line : List Char} {lines : List (List UInt8)} {rs : List Record}
    (hdecode : decodeLine raw = .ok line) (hline : (Text.trim line).head? ≠ some ':')
    (hrest : Holds lines rs) : Holds (raw :: lines) rs
  | stop {raw : List UInt8} {line : List Char} {r : Record} (hdecode : decodeLine raw = .ok line)
    (hline : r.InLine line) (hkind : r.kind = endKind) (lines : List (List UInt8)) :
    Holds (raw :: lines) []

/-- Stores the data of a record in an image. -/
def Record.storeIn (image : Array UInt8) (r : Record) : Array UInt8 :=
  store image r.address.toNat r.data

theorem readLine_of_head?_ne {line : List Char} (h : (Text.trim line).head? ≠ some ':') :
    readLine line = .ok .skip := by
  unfold readLine
  split
  · next hcolon =>
    rw [hcolon] at h
    exact absurd rfl h
  · rfl

/-- A file stores the data of its records one after the other. -/
theorem readLines_of_holds {lines : List (List UInt8)} (h : Holds lines rs) :
    readLines image lines = .ok (rs.foldl Record.storeIn image) := by
  induction h generalizing image with
  | nil => rfl
  | data hdecode hline hkind _ ih =>
    rw [readLines, decodeLine_bind hdecode, hline.readLine_eq, Record.action, if_pos hkind]
    exact ih
  | other hdecode hline _ ih =>
    rw [readLines, decodeLine_bind hdecode, readLine_of_head?_ne hline]
    exact ih
  | stop hdecode hline hkind lines =>
    have hne : endKind ≠ dataKind := by decide
    rw [readLines, decodeLine_bind hdecode, hline.readLine_eq, Record.action, hkind, if_neg hne,
      if_pos rfl]
    rfl

/-- A file of written records holds them. -/
theorem holds_flatMap_line (h : ∀ r ∈ rs, r.kind = dataKind ∧ r.data.length ≤ 255) :
    Holds (byteLines (Utf8.encode ((rs ++ [endRecord]).flatMap Record.line))) rs := by
  have hlines : byteLines (Utf8.encode ((rs ++ [endRecord]).flatMap Record.line)) =
      (rs ++ [endRecord]).map fun r => Utf8.encode r.text := by
    rw [Record.flatMap_line, byteLines_encode_flatMap (Record.forall_mem_map_text _), List.map_map]
    rfl
  rw [hlines]
  clear hlines
  induction rs with
  | nil => exact .stop (decodeLine_encode _) (Record.inLine_text (by decide)) rfl []
  | cons r rs ih =>
    rw [List.forall_mem_cons] at h
    exact .data (decodeLine_encode _) (Record.inLine_text h.1.2) h.1.1 (ih h.2)

/-- A file of data records holds the words of the image that storing them one by one gives. -/
theorem read_encode_flatMap_line (h : ∀ r ∈ rs, r.kind = dataKind ∧ r.data.length ≤ 255) :
    read (Utf8.encode ((rs ++ [endRecord]).flatMap Record.line)) =
      Binary.read (rs.foldl (fun image r => r.storeIn image) #[]).toList := by
  rw [read, readLines_of_holds (holds_flatMap_line h)]
  rfl

end PioKit.WordFile.IntelHex
