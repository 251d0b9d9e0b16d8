import PioKit.Proofs.Declarations
import PioKit.Proofs.FirstFault
import PioKit.Proofs.Tokens

/-!
# Faults are true

What a fault says about the line it is reported with, and about the lines around it, is so: a name that
it quotes stands in the line, a number that it quotes is outside of its range, a label that is called
undefined is defined by no line, and what is called a repetition has an earlier line. `Fault.IsTrue` says
this fault by fault.

A computation is sound if every fault it can end with is true. Soundness goes through sequencing, so each
reader is sound because the readers of its operands are.
-/

namespace PioKit

/-- A text stands somewhere in another. -/
def Occurs (part text : String) : Prop :=
  part.toList <:+: text.toList

/-- A line before line `number` has such a content. -/
def Precedes (source : String) (number : Nat) (p : Source.Content → Prop) : Prop :=
  ∃ line ∈ Source.lines source, line.number < number ∧ p line.content

/-- What a fault says of line number `number` of a source, which has the given text. -/
def Fault.IsTrue (source : String) (number : Nat) (text : String) : Fault → Prop
  | .duplicateProgram name =>
    Occurs name text ∧ Precedes source number fun content =>
      ∃ first rest, content = .directive ".program" (first :: rest)
  | .unsupportedWrap => Precedes source number fun content => ∃ t, content = .instruction t
  | .delayOutOfRange value max => ¬ (0 ≤ value ∧ value ≤ max)
  | .sideSetOutOfRange value max => ¬ (0 ≤ value ∧ value ≤ max)
  | .unknownCondition name => Occurs name text ∧ JumpCondition.ofToken? name = none
  | .unknownSource name => Occurs name text ∧
    (WaitSource.ofToken? name = none ∨ ShiftInSource.ofToken? name = none ∨
      MoveSource.ofToken? name = none)
  | .unknownDestination name => Occurs name text ∧
    (ShiftOutDestination.ofToken? name = none ∨ MoveDestination.ofToken? name = none ∨
      SetDestination.ofToken? name = none)
  | .unknownOperator name => Occurs name text ∧ MoveOperator.ofToken? name = none
  | .outOfRange _ value min max => ¬ (min ≤ value ∧ value ≤ max)
  | .unknownInstruction name => Occurs name text ∧ Mnemonic.ofToken? name = none
  | .unresolvedLabel name => Occurs name text ∧ Literal.parse? name = none ∧
    ∀ line ∈ Source.lines source, line.content ≠ .label name
  | .invalidNumber literal => Occurs literal text ∧ Literal.parse? literal = none
  | .missing _ => True
  | .unexpectedOperand token => Occurs token text
  | .unknownDirective keyword => Occurs keyword text ∧
    keyword ∉ [".program", ".side_set", ".wrap", ".wrap_target"]
  | .duplicateLabel name => Occurs name text ∧ Precedes source number (· = .label name)

/-- An error names a line of the source by its number, quotes what is left of it, and is true of it. -/
structure SourceError.IsTrue (source : String) (e : SourceError) : Prop where
  text_eq : ∃ raw, 0 < e.line ∧
    (Text.lines '\n' '\r' source.toList)[e.line - 1]? = some raw ∧
    e.text = String.ofList (Text.trim (Source.withoutComment (Text.trim raw)))
  fault : e.fault.IsTrue source e.line e.text

/-! ## What stands in a text -/

namespace Text

variable {α : Type} {p : α → Bool} {part l : List α}

theorem isInfix_of_mem_fields (h : part ∈ fields p l) : part <:+: l := by
  induction hfields : fields p l generalizing l with
  | nil =>
    rw [hfields] at h
    cases h
  | cons first rest ih =>
    have hne : fields p l ≠ [] := by
      rw [hfields]
      exact List.cons_ne_nil _ _
    have hsplit := separators_append_firstField p l
    rw [fields_eq_cons hne] at h hfields
    obtain ⟨rfl, hrest⟩ := List.cons.inj hfields
    rcases List.mem_cons.mp h with rfl | h
    · exact ⟨l.takeWhile p, afterField p l, by rw [List.append_assoc, hsplit]⟩
    · have hafter : afterField p l <:+ l := by
        refine ⟨l.takeWhile p ++ firstField p l, ?_⟩
        rw [List.append_assoc, hsplit]
      exact (ih h hrest).trans hafter.isInfix

theorem trim_isInfix (cs : List Char) : trim cs <:+: cs := by
  obtain ⟨front, back, -, -, hcs⟩ := exists_blanks_around_trim cs
  exact ⟨front, back, hcs.symm⟩

end Text

theorem Occurs.trans {part text whole : String} (h : Occurs part text) (h' : Occurs text whole) :
    Occurs part whole :=
  List.IsInfix.trans h h'

theorem occurs_refl (text : String) : Occurs text text :=
  List.infix_rfl

theorem occurs_of_mem_tokens {token text : String} (h : token ∈ Source.tokens text) :
    Occurs token text := by
  obtain ⟨part, hpart, rfl⟩ := List.mem_map.mp h
  rw [Occurs, String.toList_ofList]
  exact Text.isInfix_of_mem_fields hpart

theorem occurs_delayNumber (token : String) : Occurs (Statement.delayNumber token) token := by
  rw [Occurs, Statement.delayNumber, String.toList_ofList]
  have hend : Text.dropEndWhile (· == ']') (token.toList.dropWhile (· == '[')) <+:
      token.toList.dropWhile (· == '[') := List.rdropWhile_prefix _ _
  exact hend.isInfix.trans (List.dropWhile_suffix _).isInfix

theorem occurs_splitToken (token : String) : Occurs (MoveOperator.splitToken token).2 token := by
  cases h : MoveOperator.splitToken token with
  | mk operator source =>
    cases operator with
    | none =>
      rw [Instruction.eq_of_splitToken_eq_none h]
      exact occurs_refl source
    | some o =>
      obtain ⟨operator, -, rfl⟩ := Instruction.eq_operator_append_of_splitToken h
      rw [Occurs, String.toList_append]
      exact (List.suffix_append _ _).isInfix

namespace Source.Content

/-- The words that a line consists of. -/
def parts : Content → List String
  | .directive keyword arguments => keyword :: arguments
  | .label name => [name]
  | .instruction text => [text]

theorem occurs_of_mem_parts {cs : List Char} {part : String} (h : part ∈ (ofText cs).parts) :
    Occurs part (String.ofList cs) := by
  unfold ofText at h
  split at h
  · split at h
    · obtain rfl := List.mem_singleton.mp h
      exact occurs_refl _
    · next keyword arguments hwords =>
      have hmem : part ∈ (Text.words cs).map String.ofList := by
        rw [hwords]
        exact h
      obtain ⟨word, hword, rfl⟩ := List.mem_map.mp hmem
      rw [Occurs, String.toList_ofList, String.toList_ofList]
      exact Text.isInfix_of_mem_fields hword
  · split at h
    · next name hname =>
      obtain rfl := List.mem_singleton.mp h
      rw [Occurs, String.toList_ofList, String.toList_ofList]
      unfold labelName? at hname
      split at hname
      · cases hname
        exact (Text.trim_isInfix _).trans (List.dropLast_prefix cs).isInfix
      · cases hname
    · obtain rfl := List.mem_singleton.mp h
      exact occurs_refl _

end Source.Content

/-! ## Sound computations -/

/-- The computation ends with true faults only. -/
def Sound (source : String) (number : Nat) (text : String) {α : Type} (x : Except Fault α) : Prop :=
  ∀ fault, x = .error fault → fault.IsTrue source number text

section Readers

variable {source text : String} {number : Nat} {α β : Type}

theorem Sound.ok (a : α) : Sound source number text (.ok a) := nofun

theorem Sound.error {fault : Fault} (h : fault.IsTrue source number text) :
    Sound source number text (.error fault : Except Fault α) := by
  rintro _ ⟨⟩
  exact h

theorem Sound.bind {x : Except Fault α} {f : α → Except Fault β} (hx : Sound source number text x)
    (hf : ∀ a, x = .ok a → Sound source number text (f a)) : Sound source number text (x >>= f) := by
  intro fault h
  rcases bind_eq_error_iff.mp h with h | ⟨a, ha, h⟩
  · exact hx fault h
  · exact hf a ha fault h

theorem Sound.bind_ok {a : α} {f : α → Except Fault β} (h : Sound source number text (f a)) :
    Sound source number text ((.ok a : Except Fault α) >>= f) :=
  h

namespace Instruction

/-- The next token and the tokens behind it stand in the line if all tokens do. -/
theorem sound_next_bind {part : Part} {tokens : List String}
    {f : String × List String → Except Fault β} (h : ∀ token ∈ tokens, Occurs token text)
    (hf : ∀ token rest, Occurs token text → (∀ t ∈ rest, Occurs t text) →
      Sound source number text (f (token, rest))) :
    Sound source number text (next part tokens >>= f) := by
  cases tokens with
  | nil => exact .error trivial
  | cons token rest =>
    obtain ⟨htoken, hrest⟩ := List.forall_mem_cons.mp h
    exact hf token rest htoken hrest

theorem sound_finish {tokens : List String} (h : ∀ token ∈ tokens, Occurs token text) :
    Sound source number text (finish tokens) := by
  cases tokens with
  | nil => exact .ok ()
  | cons token rest => exact .error (h token List.mem_cons_self)

theorem sound_named {ofToken? : String → Option α} {unknown : String → Fault} {token : String}
    (h : ofToken? token = none → (unknown token).IsTrue source number text) :
    Sound source number text (named ofToken? unknown token) := by
  unfold named
  split
  · exact .ok _
  · next hnone => exact .error (h hnone)

theorem sound_literal {token : String} (h : Occurs token text) :
    Sound source number text (Literal.read token) := by
  unfold Literal.read
  split
  · exact .ok _
  · next hnone => exact .error ⟨h, hnone⟩

theorem sound_below (part : Part) (bound : Nat) (value : Int) :
    Sound source number text (below part bound value) := by
  unfold below
  split
  · exact .ok _
  · next hrange =>
    refine .error fun hin => hrange ⟨hin.1, ?_⟩
    omega

theorem sound_numberBelow (part : Part) (bound : Nat) {token : String} (h : Occurs token text) :
    Sound source number text (numberBelow part bound token) :=
  (sound_literal h).bind fun value _ => sound_below part bound value

theorem sound_bitCount {token : String} (h : Occurs token text) :
    Sound source number text (bitCount token) := by
  refine (sound_literal h).bind fun value _ => ?_
  split
  · exact .ok _
  · next hrange => exact .error hrange

variable {labels : LabelTable} {tokens : List String}

/-- A name that the table does not know is no label of the source. -/
def Covers (labels : LabelTable) (source : String) : Prop :=
  ∀ name, labels.find? name = none → ∀ line ∈ Source.lines source, line.content ≠ .label name

theorem sound_address (hlabels : Covers labels source) {target : String} (h : Occurs target text) :
    Sound source number text (address labels target) := by
  unfold address
  cases haddress : labels.address? target with
  | some index => exact (Sound.ok _).bind fun value _ => sound_below .jumpTarget 32 value
  | none =>
    cases hparse : Literal.parse? target with
    | some value => exact (Sound.ok _).bind fun value _ => sound_below .jumpTarget 32 value
    | none =>
      refine .bind (.error ⟨h, hparse, ?_⟩) fun value _ => sound_below .jumpTarget 32 value
      exact hlabels target (Option.map_eq_none_iff.mp haddress)

theorem sound_readJmp (hlabels : Covers labels source) (h : ∀ token ∈ tokens, Occurs token text) :
    Sound source number text (readJmp labels tokens) := by
  match tokens with
  | [] => exact .error trivial
  | [target] => exact (sound_address hlabels (h target (by simp))).bind fun a _ => .ok _
  | [condition, target] =>
    refine .bind (sound_named fun hnone => ?_) fun c _ => ?_
    · exact ⟨h condition (by simp), hnone⟩
    · exact (sound_address hlabels (h target (by simp))).bind fun a _ => .ok _
  | _ :: _ :: token :: _ => exact .error (h token (by simp))

theorem sound_readWait (h : ∀ token ∈ tokens, Occurs token text) :
    Sound source number text (readWait tokens) := by
  refine sound_next_bind h fun polarity _ hpolarity h => ?_
  refine .bind (sound_numberBelow _ _ hpolarity) fun p _ => ?_
  refine sound_next_bind h fun name _ hname h => ?_
  refine .bind (sound_named fun hnone => ⟨hname, .inl hnone⟩) fun s _ => ?_
  refine sound_next_bind h fun index rest hindex h => ?_
  refine .bind (sound_numberBelow _ _ hindex) fun n _ => ?_
  split
  · refine .bind (sound_finish fun token htoken => h token ?_) fun _ _ => .ok _
    exact List.mem_of_mem_tail htoken
  · exact .bind (sound_finish h) fun _ _ => .ok _

theorem sound_readIn (h : ∀ token ∈ tokens, Occurs token text) :
    Sound source number text (readIn tokens) := by
  refine sound_next_bind h fun name _ hname h => ?_
  refine .bind (sound_named fun hnone => ⟨hname, .inr (.inl hnone)⟩) fun s _ => ?_
  refine sound_next_bind h fun count _ hcount h => ?_
  refine .bind (sound_bitCount hcount) fun c _ => ?_
  exact .bind (sound_finish h) fun _ _ => .ok _

theorem sound_readOut (h : ∀ token ∈ tokens, Occurs token text) :
    Sound source number text (readOut tokens) := by
  refine sound_next_bind h fun name _ hname h => ?_
  refine .bind (sound_named fun hnone => ⟨hname, .inl hnone⟩) fun d _ => ?_
  refine sound_next_bind h fun count _ hcount h => ?_
  refine .bind (sound_bitCount hcount) fun c _ => ?_
  exact .bind (sound_finish h) fun _ _ => .ok _

theorem sound_readSet (h : ∀ token ∈ tokens, Occurs token text) :
    Sound source number text (readSet tokens) := by
  refine sound_next_bind h fun name _ hname h => ?_
  refine .bind (sound_named fun hnone => ⟨hname, .inr (.inr hnone)⟩) fun d _ => ?_
  refine sound_next_bind h fun value _ hvalue h => ?_
  refine .bind (sound_numberBelow _ _ hvalue) fun n _ => ?_
  exact .bind (sound_finish h) fun _ _ => .ok _

theorem sound_readMov (h : ∀ token ∈ tokens, Occurs token text) :
    Sound source number text (readMov tokens) := by
  refine sound_next_bind h fun name rest hname h => ?_
  refine .bind (sound_named fun hnone => ⟨hname, .inr (.inl hnone)⟩) fun d _ => ?_
  have hsource : ∀ {operator : Option MoveOperator} {source' : String}, Occurs source' text →
      Sound source number text
        (named MoveSource.ofToken? .unknownSource source' >>= fun s =>
          pure (Instruction.mov d operator s)) := by
    intro operator name hname
    exact .bind (sound_named fun hnone => ⟨hname, .inr (.inr hnone)⟩) fun s _ => .ok _
  match rest with
  | [] => exact .error trivial
  | [token] => exact .bind_ok (hsource ((occurs_splitToken token).trans (h token (by simp))))
  | [operator, token] =>
    refine .bind (sound_named fun hnone => ⟨h operator (by simp), hnone⟩) fun o _ => ?_
    exact .bind_ok (hsource (h token (by simp)))
  | _ :: _ :: token :: _ => exact .error (h token (by simp))

theorem sound_readIrq (h : ∀ token ∈ tokens, Occurs token text) :
    Sound source number text (readIrq tokens) := by
  have hfront : ∀ token ∈ if tokens.getLast? = some "rel" then tokens.dropLast else tokens,
      Occurs token text := by
    split
    · exact fun token htoken => h token (List.dropLast_subset tokens htoken)
    · exact h
  simp only [readIrq, decide_eq_true_eq]
  generalize (if tokens.getLast? = some "rel" then tokens.dropLast else tokens) = front at hfront ⊢
  rcases front with _ | ⟨first, _ | ⟨second, _ | ⟨token, rest⟩⟩⟩
  · exact .error trivial
  · exact .bind_ok (.bind (sound_numberBelow _ _ (hfront first (by simp))) fun n _ => .ok _)
  · exact .bind_ok (.bind (sound_numberBelow _ _ (hfront second (by simp))) fun n _ => .ok _)
  · exact .error (hfront token (by simp))

theorem sound_read (hlabels : Covers labels source) (h : ∀ token ∈ tokens, Occurs token text) :
    Sound source number text (read labels tokens) := by
  refine sound_next_bind h fun name operands hname h => ?_
  refine .bind (sound_named fun hnone => ⟨hname, hnone⟩) fun mnemonic _ => ?_
  cases mnemonic with
  | jmp => exact sound_readJmp hlabels h
  | wait => exact sound_readWait h
  | shiftIn => exact sound_readIn h
  | shiftOut => exact sound_readOut h
  | push => exact .ok _
  | pull => exact .ok _
  | mov => exact sound_readMov h
  | irq => exact sound_readIrq h
  | set => exact sound_readSet h
  | nop => exact .ok _

end Instruction

namespace Statement

variable {tokens : List String} {token : String} {width : Nat}

theorem mem_of_cutDelay (h : (cutDelay tokens).2 = some token) : token ∈ tokens := by
  unfold cutDelay at h
  split at h
  · next last hlast =>
    split at h
    · cases h
      exact List.mem_of_getLast? hlast
    · cases h
  · cases h

theorem mem_of_cutSide (h : (cutSide tokens).2 = some token) : token ∈ tokens := by
  unfold cutSide at h
  split at h
  · next value word front hrev =>
    split at h
    · cases h
      have hmem : token ∈ tokens.reverse := by simp [hrev]
      exact List.mem_reverse.mp hmem
    · cases h
  · cases h

theorem sound_delayValue (h : Occurs token text) :
    Sound source number text (delayValue width token) := by
  refine .bind (Instruction.sound_literal ((occurs_delayNumber token).trans h)) fun value _ => ?_
  split
  · exact .ok _
  · next hrange => exact .error hrange

theorem sound_sideValue (h : Occurs token text) :
    Sound source number text (sideValue width token) := by
  refine .bind (Instruction.sound_literal h) fun value _ => ?_
  split
  · split
    · exact .ok _
    · next hrange => exact .error hrange
  · next hwidth =>
    refine .error fun hin => hwidth ?_
    exact Int.ofNat_le.mp hin.2

theorem sound_elim {modifier : Option String} {value : String → Except Fault Nat}
    (h : ∀ token, modifier = some token → Sound source number text (value token)) :
    Sound source number text (modifier.elim (.ok 0) value) := by
  cases modifier with
  | none => exact .ok 0
  | some token => exact h token rfl

theorem sound_modifiers {s : Statement} (hdelay : ∀ token, s.delay = some token → Occurs token text)
    (hside : ∀ token, s.side = some token → Occurs token text) :
    Sound source number text (s.modifiers width) := by
  rw [modifiers_eq_bind]
  refine .bind (sound_elim fun token htoken => sound_delayValue (hdelay token htoken)) fun d _ => ?_
  exact .bind (sound_elim fun token htoken => sound_sideValue (hside token htoken)) fun _ _ => .ok _

theorem sound_encode {labels : LabelTable} (hlabels : Instruction.Covers labels source)
    (h : ∀ token ∈ tokens, Occurs token text) :
    Sound source number text ((ofTokens tokens).encode labels width) := by
  have hdelay : ∀ token, (ofTokens tokens).delay = some token → Occurs token text :=
    fun token htoken => h token (mem_of_cutDelay htoken)
  have hside : ∀ token, (ofTokens tokens).side = some token → Occurs token text :=
    fun token htoken => h token ((cutDelay_isPrefix tokens).subset (mem_of_cutSide htoken))
  have hcore : ∀ token ∈ (ofTokens tokens).core, Occurs token text :=
    fun token htoken => h token ((core_isPrefix tokens).subset htoken)
  refine .bind (sound_modifiers hdelay hside) fun m _ => ?_
  exact .bind (Instruction.sound_read hlabels hcore) fun i _ => .ok _

end Statement

/-! ## Refused lines -/

namespace Program

/-- What a program keeps of the lines it was collected from stands in front of line `number`. -/
structure Recalls (source : String) (number : Nat) (p : Program) : Prop where
  name : p.name.isSome → Precedes source number fun content =>
    ∃ first rest, content = .directive ".program" (first :: rest)
  instruction : p.instructions.isEmpty = false → Precedes source number fun content =>
    ∃ t, content = .instruction t
  label : ∀ name, (p.labels.find? name).isSome → Precedes source number (· = .label name)

theorem recalls_of_describes {before : List Source.Line} {p : Program}
    (h : Source.Describes before p)
    (hbefore : ∀ line ∈ before, line ∈ Source.lines source ∧ line.number < number) :
    Recalls source number p where
  name := by
    intro hname
    rcases h.name with ⟨-, hnone⟩ | ⟨name, rest, huses, -⟩
    · rw [hnone] at hname
      cases hname
    · have hmem : name :: rest ∈ Source.uses ".program" before := by simp [huses]
      obtain ⟨line, hline, harguments⟩ := List.mem_filterMap.mp hmem
      obtain ⟨hsource, hnumber⟩ := hbefore line hline
      exact ⟨line, hsource, hnumber, name, rest, Source.content_of_arguments? harguments⟩
  instruction := by
    intro hempty
    have hne : p.instructions.toList ≠ [] := by simpa using hempty
    rw [h.instructions] at hne
    obtain ⟨i, hi⟩ := List.exists_mem_of_ne_nil _ hne
    obtain ⟨line, hline, hpending⟩ := List.mem_filterMap.mp hi
    obtain ⟨hsource, hnumber⟩ := hbefore line hline
    exact ⟨line, hsource, hnumber, i.text, Source.content_of_pending? hpending⟩
  label := by
    intro name hname
    obtain ⟨label, hlabel⟩ := Option.isSome_iff_exists.mp hname
    obtain ⟨rfl, hdefines⟩ := (h.label name label).mp hlabel
    obtain ⟨line, hline, hlabel⟩ := List.mem_filterMap.mp (Source.mem_labelNames_of_defines hdefines)
    obtain ⟨hsource, hnumber⟩ := hbefore line hline
    exact ⟨line, hsource, hnumber, Source.content_of_label? hlabel⟩

variable {p : Program}

theorem sound_setName (hp : Recalls source number p) {arguments : List String}
    (h : ∀ argument ∈ arguments, Occurs argument text) :
    Sound source number text (p.setName arguments) := by
  cases arguments with
  | nil => exact .error trivial
  | cons name rest =>
    by_cases hname : p.name.isSome
    · rw [setName, if_pos hname]
      exact .error ⟨h name List.mem_cons_self, hp.name hname⟩
    · rw [setName, if_neg hname]
      exact .ok _

theorem sound_setSideSet {arguments : List String}
    (h : ∀ argument ∈ arguments, Occurs argument text) :
    Sound source number text (p.setSideSet arguments) := by
  cases arguments with
  | nil => exact .error trivial
  | cons token rest =>
    refine .bind (Instruction.sound_literal (h token List.mem_cons_self)) fun value _ => ?_
    split
    · exact .ok _
    · next hrange => exact .error hrange

theorem sound_addDirective (hp : Recalls source number p) {keyword : String}
    {arguments : List String} (hkeyword : Occurs keyword text)
    (h : ∀ argument ∈ arguments, Occurs argument text) :
    Sound source number text (p.addDirective keyword arguments) := by
  unfold addDirective
  split
  · exact sound_setName hp h
  split
  · exact sound_setSideSet h
  split
  · split
    · exact .ok _
    · next hempty => exact .error (hp.instruction (by simpa using hempty))
  split
  · exact .ok _
  · next hprogram hsideSet hwrapTarget hwrap =>
    refine .error ⟨hkeyword, ?_⟩
    simp [hprogram, hsideSet, hwrapTarget, hwrap]

theorem sound_addLabel (hp : Recalls source number p) {name : String} (h : Occurs name text)
    (line : Nat) : Sound source number text (p.addLabel name line) := by
  unfold addLabel
  split
  · exact .error trivial
  · refine .bind ?_ fun labels _ => .ok _
    intro fault hfault
    obtain ⟨hfound, rfl⟩ := LabelTable.define_eq_error_iff.mp hfault
    exact ⟨h, hp.label name hfound⟩

theorem sound_addContent (hp : Recalls source number p) {content : Source.Content}
    (h : ∀ part ∈ content.parts, Occurs part text) (line : Nat) :
    Sound source number text (p.addContent line content) := by
  cases content with
  | directive keyword arguments =>
    obtain ⟨hkeyword, harguments⟩ := List.forall_mem_cons.mp h
    exact sound_addDirective hp hkeyword harguments
  | label name => exact sound_addLabel hp (h name List.mem_cons_self) line
  | instruction t => exact .ok _

end Program

end Readers

/-! ## Errors of an assembly -/

section Lines

variable {source : String} {before after : List Source.Line} {line : Source.Line}

theorem precedes_of_lines_eq (h : Source.lines source = before ++ line :: after) :
    ∀ earlier ∈ before, earlier ∈ Source.lines source ∧ earlier.number < line.number := by
  intro earlier hmem
  have hnumbers := Source.pairwise_number_linesFrom 1 (Source.rawLines source)
  rw [← Source.lines_eq_linesFrom, h] at hnumbers
  refine ⟨h ▸ List.mem_append_left _ hmem, ?_⟩
  exact (List.pairwise_append.mp hnumbers).2.2 earlier hmem line List.mem_cons_self

theorem occurs_of_mem_content (h : line ∈ Source.lines source) :
    ∀ part ∈ line.content.parts, Occurs part line.text := by
  obtain ⟨raw, -, -, htext, hcontent⟩ := Source.exists_raw_of_mem_lines h
  rw [hcontent, htext]
  exact fun part => Source.Content.occurs_of_mem_parts

theorem covers_of_describes {p : Program} (h : Source.Describes (Source.lines source) p) :
    Instruction.Covers p.labels source := by
  intro name hnone line hline hcontent
  refine h.find?_eq_none_iff.mp hnone (List.mem_filterMap.mpr ⟨line, hline, ?_⟩)
  rw [Source.Line.label?, hcontent]

/-- A fault of a line is reported with the number of the line and what is left of it. -/
theorem isTrue_of_mem_lines (h : line ∈ Source.lines source) {fault : Fault}
    (hfault : fault.IsTrue source line.number line.text) :
    SourceError.IsTrue source ⟨fault, line.number, line.text⟩ := by
  obtain ⟨raw, hpos, hraw, htext, -⟩ := Source.exists_raw_of_mem_lines h
  exact ⟨⟨raw, hpos, hraw, htext⟩, hfault⟩

end Lines

/-- Every error of an assembly is true of the source: it quotes the line of its number, and what it says
of this line and of the lines around it is so. -/
theorem isTrue_of_assemble_eq_error {source : String} {e : SourceError}
    (h : assemble source = .error e) : e.IsTrue source := by
  have houtcome := outcome_assemble source
  rw [h] at houtcome
  cases houtcome with
  | @refused before after line p fault hlines hbefore hline =>
    have hmem : line ∈ Source.lines source := by simp [hlines]
    obtain ⟨-, hdescribes⟩ := Program.wellFormed_and_describes_of_ofLines hbefore
    have hrecalls := Program.recalls_of_describes hdescribes (precedes_of_lines_eq hlines)
    apply isTrue_of_mem_lines hmem
    exact Program.sound_addContent hrecalls (occurs_of_mem_content hmem) _ fault hline
  | @unencodable before after line i p fault hp hlines hbefore hi hfault =>
    have hmem : line ∈ Source.lines source := by simp [hlines]
    obtain ⟨-, hdescribes⟩ := Program.wellFormed_and_describes_of_ofLines hp
    rw [Source.eq_of_pending?_eq_some hmem hi] at hfault
    apply isTrue_of_mem_lines hmem
    exact Statement.sound_encode (covers_of_describes hdescribes)
      (fun token htoken => occurs_of_mem_tokens htoken) fault hfault

/-- A label that is not defined, and a second definition of one that is. -/
theorem isTrue_of_assemble_eq_error_label :
    let undefined : SourceError := ⟨.unresolvedLabel "lop", 2, "jmp lop"⟩
    let twice : SourceError := ⟨.duplicateLabel "loop", 3, "loop :"⟩
    assemble "loop:\n  jmp lop ; typo" = .error undefined ∧
      undefined.IsTrue "loop:\n  jmp lop ; typo" ∧
      assemble "loop:\n  jmp lop\nloop :" = .error twice ∧
      twice.IsTrue "loop:\n  jmp lop\nloop :" := by
  intro undefined twice
  have hundefined : assemble "loop:\n  jmp lop ; typo" = .error undefined := rfl
  have htwice : assemble "loop:\n  jmp lop\nloop :" = .error twice := rfl
  exact ⟨hundefined, isTrue_of_assemble_eq_error hundefined, htwice,
    isTrue_of_assemble_eq_error htwice⟩

end PioKit
