import Mathlib.Data.List.Forall2
import PioKit.Assembly
import PioKit.Proofs.Numerals

/-!
# The texts of reports

What the reports of an assembly say, written out without the functions that make them: how a piece of
source text stands between double quotes (`Quotes`), how a line, a program, a label and an encoded
instruction are told. The word of an encoded instruction can be read off the end of its report
(`Report.word?`).
-/

namespace PioKit

/-! ## Quoted text -/

namespace Text

/-- A character given by its number. -/
def numbered (c : Char) : List Char :=
  ['\\', 'u', '\x7b'] ++ Nat.toDigits 16 c.toNat ++ ['\x7d']

/-- How a character stands between double quotes. -/
inductive Escapes : Char → List Char → Prop
  /-- The quote, the backslash and four control characters have an escape of their own. -/
  | short {c letter : Char}
    (h : (c, letter) ∈ [('"', '"'), ('\\', '\\'), ('\t', 't'), ('\r', 'r'), ('\n', 'n'), ('\x00', '0')]) :
    Escapes c ['\\', letter]
  /-- Any other character of ASCII that is printed stands for itself. -/
  | printed {c : Char} (hquote : c ≠ '"') (hbackslash : c ≠ '\\') (hlow : 0x20 ≤ c.toNat)
    (hhigh : c.toNat ≤ 0x7E) : Escapes c [c]
  /-- Any other control character of ASCII is given by its number. -/
  | control {c : Char} (hshort : c ∉ ['\t', '\r', '\n', '\x00'])
    (hcontrol : c.toNat < 0x20 ∨ c.toNat = 0x7F) : Escapes c (numbered c)
  /-- Beyond ASCII it depends on whether the character can be seen by itself. -/
  | beyond {c : Char} (h : 0x80 ≤ c.toNat) :
    Escapes c (if standsAlone c then [c] else numbered c)

/-- A text between double quotes. -/
def Quotes (text shown : String) : Prop :=
  ∃ parts : List (List Char), List.Forall₂ Escapes text.toList parts ∧
    shown = String.ofList ('"' :: parts.flatten ++ ['"'])

/-- The tables agree with ASCII: they begin with its control characters, and no mark is among its
characters. -/
theorem standsAlone_of_lt {c : Char} (h : c.toNat < 0x80) :
    standsAlone c = decide (0x20 ≤ c.toNat ∧ c.toNat ≤ 0x7E) := by
  have hcontrol (rest : Ranges) : Ranges.covers ((0x00, 0x1F) :: (0x7F, 0xA0) :: rest) c =
      !decide (0x20 ≤ c.toNat ∧ c.toNat ≤ 0x7E) := by
    have hhigh : c.toNat ≤ 0xA0 := by omega
    by_cases hlow : c.toNat ≤ 0x1F
    · simp only [Ranges.covers, hlow, if_true]
      grind
    · simp only [Ranges.covers, hlow, hhigh, if_true, if_false]
      grind
  have hmark (last : Nat) (rest : Ranges) (hlast : 0x80 ≤ last) :
      Ranges.covers ((0x300, last) :: rest) c = false := by
    rw [Ranges.covers, if_pos (by omega)]
    exact decide_eq_false (by omega)
  rw [standsAlone, isPrintable, isExtendingMark, unprintableRanges, extendingMarkRanges, hcontrol,
    hmark _ _ (by decide), Bool.not_not, Bool.not_false, Bool.and_true]

theorem escapes_escape (c : Char) : Escapes c (escape c) := by
  unfold escape
  split
  any_goals exact .short (by decide)
  next hquote hbackslash htab hreturn hfeed hzero =>
    by_cases hbeyond : 0x80 ≤ c.toNat
    · exact .beyond hbeyond
    · rw [standsAlone_of_lt (Nat.lt_of_not_le hbeyond)]
      by_cases hprinted : 0x20 ≤ c.toNat ∧ c.toNat ≤ 0x7E
      · rw [decide_eq_true hprinted, if_pos rfl]
        exact .printed hquote hbackslash hprinted.1 hprinted.2
      · rw [decide_eq_false hprinted, if_neg Bool.false_ne_true]
        have hshort : c ∉ ['\t', '\r', '\n', '\x00'] := by
          simp only [List.mem_cons, List.not_mem_nil, or_false, not_or]
          exact ⟨htab, hreturn, hfeed, hzero⟩
        exact .control hshort (by omega)

theorem quotes_quoted (text : String) : Quotes text (quoted text) := by
  refine ⟨text.toList.map escape, ?_, ?_⟩
  · rw [List.forall₂_map_right_iff, List.forall₂_same]
    exact fun c _ => escapes_escape c
  · rw [quoted, List.flatMap_def]

end Text

open Text (Quotes quotes_quoted)

/-! ## Lines and programs -/

/-- How the content of a line is shown. -/
inductive Source.Content.Shows : Source.Content → String → Prop
  | directive {keyword shown : String} {arguments shownArguments : List String}
    (hkeyword : Quotes keyword shown) (harguments : List.Forall₂ Quotes arguments shownArguments) :
    Shows (.directive keyword arguments)
      ("Directive \x7b keyword: " ++ shown ++ ", args: [" ++ ", ".intercalate shownArguments ++ "] \x7d")
  | label {name shown : String} (h : Quotes name shown) :
    Shows (.label name) ("Label(" ++ shown ++ ")")
  | instruction {text shown : String} (h : Quotes text shown) :
    Shows (.instruction text) ("Instruction(" ++ shown ++ ")")

theorem Source.Content.shows_describe (content : Source.Content) : content.Shows content.describe := by
  cases content with
  | directive keyword arguments =>
    refine .directive (quotes_quoted keyword) ?_
    rw [List.forall₂_map_right_iff, List.forall₂_same]
    exact fun argument _ => quotes_quoted argument
  | label name => exact .label (quotes_quoted name)
  | instruction text => exact .instruction (quotes_quoted text)

/-- How the name of a program is shown. -/
inductive ShowsName : Option String → String → Prop
  | none : ShowsName none "None"
  | some {name shown : String} (h : Quotes name shown) :
    ShowsName (some name) ("Some(" ++ shown ++ ")")

theorem showsName_describeName (name : Option String) : ShowsName name (describeName name) := by
  cases name with
  | none => exact .none
  | some name => exact .some (quotes_quoted name)

/-! ## Words -/

/-- The lower-case hexadecimal digit of a value below 16. -/
def lowerDigit (d : Nat) : Char :=
  ['0', '1', '2', '3', '4', '5', '6', '7', '8', '9', 'a', 'b', 'c', 'd', 'e', 'f'].getD d '0'

/-- The four digits of a word, the high one first. -/
def Word.lowerDigits (w : Word) : List Char :=
  [lowerDigit (w.toNat / 4096), lowerDigit (w.toNat / 256 % 16), lowerDigit (w.toNat / 16 % 16),
    lowerDigit (w.toNat % 16)]

theorem digit?_lowerDigit : ∀ d < 16, Numeral.digit? 16 (lowerDigit d) = some d := by
  decide

theorem Word.describe_eq (w : Word) : w.describe = "0x" ++ String.ofList w.lowerDigits := by
  have hlower : ∀ d < 16, (Numeral.upperDigit d).toLower = lowerDigit d := by decide
  have hw : w.toNat < 65536 := w.isLt
  have hdigits : w.toNat / 256 / 16 = w.toNat / 4096 ∧ w.toNat % 256 / 16 = w.toNat / 16 % 16 ∧
      w.toNat % 256 % 16 = w.toNat % 16 := by
    omega
  rw [describe, lowerDigits, Numeral.hex_four, Numeral.hex_two (by omega), Numeral.hex_two (by omega),
    hdigits.1, hdigits.2.1, hdigits.2.2]
  simp only [List.map_cons, List.map_nil, List.cons_append, List.nil_append]
  rw [hlower _ (by omega), hlower _ (by omega), hlower _ (by omega), hlower _ (by omega)]

/-- The digits of a word give it back. -/
theorem Word.ofDigits?_lowerDigits (w : Word) :
    Numeral.ofDigits? 16 w.lowerDigits = some w.toNat := by
  have hw : w.toNat < 65536 := w.isLt
  rw [Numeral.ofDigits?_eq_extend?, lowerDigits]
  refine Numeral.extend?_cons_eq_some_iff.mpr ⟨_, digit?_lowerDigit _ (by omega), ?_⟩
  refine Numeral.extend?_cons_eq_some_iff.mpr ⟨_, digit?_lowerDigit _ (by omega), ?_⟩
  refine Numeral.extend?_cons_eq_some_iff.mpr ⟨_, digit?_lowerDigit _ (by omega), ?_⟩
  refine Numeral.extend?_cons_eq_some_iff.mpr ⟨_, digit?_lowerDigit _ (by omega), ?_⟩
  rw [Numeral.extend?_nil]
  congr 1
  omega

/-! ## Reports -/

namespace Report

/-- A line was read. -/
def TellsLine (line : Source.Line) (report : Report) : Prop :=
  ∃ shown, line.content.Shows shown ∧
    report = ⟨.trace, .reading, "line " ++ toString line.number ++ ": " ++ shown⟩

/-- A program was collected, with so many instructions and labels. -/
def TellsProgram (p : Program) (instructions labels : Nat) (report : Report) : Prop :=
  ∃ shown, ShowsName p.name shown ∧
    report = ⟨.debug, .collecting, "program " ++ shown ++ ": " ++ toString instructions ++
      " instructions, " ++ toString labels ++ " labels, side_set " ++ toString p.sideSet⟩

/-- The program has this label. -/
def ofLabel (label : Label) : Report :=
  ⟨.trace, .collecting, "label " ++ label.name ++ " -> " ++ toString label.index ++
    " (line " ++ toString label.line ++ ")"⟩

/-- An instruction was encoded. Its text is filled up to 24 characters. -/
def ofWord (i : PendingInstruction) (word : Word) : Report :=
  ⟨.debug, .encoding, "line " ++ toString i.line ++ ": " ++
    (i.text ++ String.ofList (List.replicate (24 - i.text.length) ' ')) ++ " 0x" ++
    String.ofList word.lowerDigits⟩

/-- The word at the end of the report of an encoded instruction. -/
def word? (report : Report) : Option Word :=
  if report.stage = .encoding then
    let text := report.message.toList
    (Numeral.ofDigits? 16 (text.drop (text.length - 4))).map (BitVec.ofNat 16)
  else none

theorem word?_ofWord (i : PendingInstruction) (word : Word) : (ofWord i word).word? = some word := by
  have hdrop (front : List Char) :
      (front ++ word.lowerDigits).drop ((front ++ word.lowerDigits).length - 4) = word.lowerDigits := by
    have hlength : word.lowerDigits.length = 4 := rfl
    rw [List.length_append, hlength, Nat.add_sub_cancel, List.drop_left]
  rw [word?, ofWord, if_pos rfl]
  dsimp only
  rw [String.toList_append, String.toList_ofList, hdrop, word.ofDigits?_lowerDigits, Option.map_some,
    BitVec.ofNat_toNat, BitVec.setWidth_eq]

end Report

theorem PendingInstruction.run_encoding {labels : LabelTable} {width : Nat}
    {i : PendingInstruction} {word : Word} (h : i.encode labels width = .ok word) :
    (i.encoding labels width).run = ⟨[.ofWord i word], .ok word⟩ := by
  have htext (front back : String) : front ++ " " ++ ("0x" ++ back) = front ++ " 0x" ++ back := by
    have hmark : " 0x" = " " ++ "0x" := by decide
    simp only [hmark, String.append_assoc]
  rw [run_encoding_of_ok h, Word.describe_eq, Report.ofWord, ← htext]
  rfl

theorem Source.tellsLine_reading (text : String) :
    List.Forall₂ Report.TellsLine (Source.lines text) (Source.reading text).reports := by
  rw [lines_eq_filterMap, reading, Logged.reports_filterMapM]
  generalize (Text.lines '\n' '\r' text.toList).zipIdx 1 = raws
  induction raws with
  | nil => exact .nil
  | cons raw raws ih =>
    rw [List.filterMap_cons, List.flatMap_cons]
    cases hline : Line.ofRaw? raw.1 raw.2 with
    | none =>
      have hreports : (readingLine raw.1 raw.2).reports = [] := by
        rw [readingLine, hline]
        rfl
      rw [hreports]
      exact ih
    | some line =>
      have hreports : (readingLine raw.1 raw.2).reports =
          [⟨.trace, .reading, "line " ++ toString line.number ++ ": " ++ line.content.describe⟩] := by
        rw [readingLine, hline]
        rfl
      rw [hreports]
      exact .cons ⟨_, line.content.shows_describe, rfl⟩ ih

end PioKit
