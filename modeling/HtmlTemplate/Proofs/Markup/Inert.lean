import HtmlTemplate.Markup.TagReader
import HtmlTemplate.Proofs.Text.Escaping

/-!
# Bytes that no tag is made of

Escaped text holds no `<`, no `>` and no quote. In text, in a quoted value, in a declaration and
in raw text such bytes leave a lexer where it is; in a start tag, they can at most be taken for a
slash that closes the element, and a quoted value behind them takes that back. So a lexer that
has read escaped text or attributes goes on as if it had not, but for the offsets that it counts.

Results:
1. `Agrees.after`: lexers that differ in offsets only go on alike.
2. `passesOver_of_inert`: inert text is passed over outside of tags and in values.
3. `passesOver_of_attributes`: attributes made of inert text are passed over in a start tag.
4. `steady_of_interrupt`, `inTag_of_interrupt`: where a marker stands that does not move the lexer.
5. `Entity.exists_inert_of_appendEscaped`: escaped text is inert.
-/

namespace HtmlTemplate

open Markup

/-! ## 1. Lexers that go on alike -/

/-- The lexers are alike but for the offsets. -/
structure TagLexer.Agrees (l l' : TagLexer) : Prop where
  state : l.state = l'.state
  name : l.name = l'.name
  selfClosing : l.selfClosing = l'.selfClosing
  rawName : l.rawName = l'.rawName

namespace TagLexer

variable {l l' l'' : TagLexer}

theorem Agrees.refl (l : TagLexer) : l.Agrees l := ⟨rfl, rfl, rfl, rfl⟩

theorem Agrees.trans (h : l.Agrees l') (h' : l'.Agrees l'') : l.Agrees l'' :=
  ⟨h.state.trans h'.state, h.name.trans h'.name, h.selfClosing.trans h'.selfClosing,
    h.rawName.trans h'.rawName⟩

/-- No byte is read differently because of the offsets. -/
theorem Agrees.read (h : l.Agrees l') (byte : UInt8) : (l.read byte).1.Agrees (l'.read byte).1 := by
  obtain ⟨offset, state, tagStart, name, selfClosing, rawName⟩ := l
  obtain ⟨offset', state', tagStart', name', selfClosing', rawName'⟩ := l'
  obtain ⟨hstate, hname, hself, hraw⟩ := h
  simp only at hstate hname hself hraw
  subst hstate hname hself hraw
  cases state <;>
    simp only [TagLexer.read, readText, readLessThan, readLessThanSlash, readTagName, readInTag,
      readEndTagName, readRawText, endStartTag, endEndTag, startName, growName] <;>
    (repeat' split) <;> exact ⟨rfl, rfl, rfl, rfl⟩

theorem Agrees.step (h : l.Agrees l') (byte : UInt8) : (l.step byte).1.Agrees (l'.step byte).1 :=
  have hread := h.read byte
  ⟨hread.state, hread.name, hread.selfClosing, hread.rawName⟩

theorem Agrees.after (h : l.Agrees l') (bytes : List UInt8) :
    (l.after bytes).Agrees (l'.after bytes) := by
  induction bytes generalizing l l' with
  | nil => exact h
  | cons byte bytes ih => exact ih (h.step byte)

theorem after_append (l : TagLexer) (front back : List UInt8) :
    l.after (front ++ back) = (l.after front).after back :=
  List.foldl_append

end TagLexer

/-! ## 2. Inert text -/

/-- Neither an angle bracket nor a quote. -/
def Markup.Inert (byte : UInt8) : Prop :=
  byte ≠ '<'.toUInt8 ∧ byte ≠ '>'.toUInt8 ∧ byte ≠ '"'.toUInt8 ∧ byte ≠ '\''.toUInt8

instance (byte : UInt8) : Decidable (Inert byte) := inferInstanceAs (Decidable (_ ∧ _))

/-- Text without angle brackets and quotes. -/
def Markup.InertText (bytes : List UInt8) : Prop := ∀ byte ∈ bytes, Inert byte

theorem Markup.InertText.nil : InertText [] := fun _ h => absurd h List.not_mem_nil

theorem Markup.InertText.append {front back : List UInt8} (h : InertText front)
    (h' : InertText back) : InertText (front ++ back) :=
  List.forall_mem_append.mpr ⟨h, h'⟩

/-- A blank, a key, and a value in double quotes. -/
def Markup.attributeBytes (key value : List UInt8) : List UInt8 :=
  ' '.toUInt8 :: (key ++ '='.toUInt8 :: '"'.toUInt8 :: (value ++ ['"'.toUInt8]))

/-- Attributes whose keys and values are inert text. -/
inductive Markup.AttributeText : List UInt8 → Prop
  | nil : AttributeText []
  | cons {key value rest : List UInt8} : InertText key → InertText value → AttributeText rest →
      AttributeText (attributeBytes key value ++ rest)

theorem Markup.AttributeText.append {front back : List UInt8} (h : AttributeText front)
    (h' : AttributeText back) : AttributeText (front ++ back) := by
  induction h with
  | nil => exact h'
  | cons hkey hvalue _ ih =>
    rw [List.append_assoc]
    exact .cons hkey hvalue ih

namespace TagState

/-- No inert byte leads away from the state. -/
def Steady : TagState → Prop
  | text | declaration | rawText 0 => True
  | quoted quote => quote = '"'.toUInt8 ∨ quote = '\''.toUInt8
  | _ => False

/-- The state `s'` may be entered by what is inserted in the state `s`: the same state, or a
value in a start tag. -/
def Allows (s s' : TagState) : Prop := s' = s ∨ s = inTag ∧ s' = quoted '"'.toUInt8

/-- Whether the state is that of a comment. -/
def inComment : TagState → Bool
  | comment _ => true
  | _ => false

/-- Whether the state is that of the text of a script or style. -/
def inRawText : TagState → Bool
  | rawText _ => true
  | _ => false

end TagState

namespace TagLexer

variable {l : TagLexer} {byte : UInt8} {bytes front back key value : List UInt8}
  {p : TagState → Prop}

/-- While it reads the bytes, the lexer reports no tag, and all its states have the property. -/
def Keeps (p : TagState → Prop) (l : TagLexer) : List UInt8 → Prop
  | [] => True
  | byte :: rest => (l.step byte).2 = none ∧ p (l.step byte).1.state ∧ Keeps p (l.step byte).1 rest

theorem Keeps.append (h : l.Keeps p front) (h' : (l.after front).Keeps p back) :
    l.Keeps p (front ++ back) := by
  induction front generalizing l with
  | nil => exact h'
  | cons byte front ih => exact ⟨h.1, h.2.1, ih h.2.2 h'⟩

theorem Keeps.mono {q : TagState → Prop} (h : l.Keeps p bytes) (hpq : ∀ s, p s → q s) :
    l.Keeps q bytes := by
  induction bytes generalizing l with
  | nil => trivial
  | cons byte bytes ih => exact ⟨h.1, hpq _ h.2.1, ih h.2.2⟩

/-- The lexer goes on behind the bytes as it would have gone on before them. In between it stays
where it is, and no tag is opened or closed. -/
structure PassesOver (l : TagLexer) (bytes : List UInt8) : Prop where
  agrees : (l.after bytes).Agrees l
  keeps : l.Keeps l.state.Allows bytes

/-- All that an inert byte does is to be counted. -/
theorem step_of_inert (hs : l.state.Steady) (hb : Inert byte) :
    l.step byte = ({ l with offset := l.offset + 1 }, none) := by
  obtain ⟨offset, state, tagStart, name, selfClosing, rawName⟩ := l
  obtain ⟨hlt, hgt, hdouble, hsingle⟩ := hb
  cases state with
  | text => simp [step, read, readText, hlt]
  | declaration => simp [step, read, hgt]
  | quoted quote =>
    have hne : byte ≠ quote := by
      rcases hs with rfl | rfl
      · exact hdouble
      · exact hsingle
    simp [step, read, hne]
  | rawText matched =>
    cases matched with
    | zero => simp [step, read, readRawText, hlt]
    | succ matched => cases hs
  | _ => cases hs

namespace PassesOver

theorem nil (l : TagLexer) : l.PassesOver [] := ⟨.refl l, trivial⟩

theorem append (h : l.PassesOver front) (h' : (l.after front).PassesOver back) :
    l.PassesOver (front ++ back) := by
  refine ⟨?_, h.keeps.append ?_⟩
  · rw [after_append]
    exact h'.agrees.trans h.agrees
  · rw [← h.agrees.state]
    exact h'.keeps

/-- A byte that changes nothing but the offset. -/
theorem cons {rest : List UInt8} (hstep : l.step byte = ({ l with offset := l.offset + 1 }, none))
    (h : PassesOver { l with offset := l.offset + 1 } rest) : l.PassesOver (byte :: rest) := by
  refine ⟨?_, ?_⟩
  · have hagrees : TagLexer.Agrees { l with offset := l.offset + 1 } l := ⟨rfl, rfl, rfl, rfl⟩
    rw [after, List.foldl_cons, hstep]
    exact h.agrees.trans hagrees
  · rw [Keeps, hstep]
    exact ⟨rfl, .inl rfl, h.keeps⟩

end PassesOver

/-- Inert text is passed over outside of tags and in values. -/
theorem passesOver_of_inert (hs : l.state.Steady) (h : InertText bytes) : l.PassesOver bytes := by
  induction bytes generalizing l with
  | nil => exact .nil l
  | cons byte bytes ih =>
    obtain ⟨hbyte, hbytes⟩ := List.forall_mem_cons.mp h
    exact .cons (step_of_inert hs hbyte) (ih hs hbytes)

/-! ## 3. Attributes -/

/-- In a start tag, an inert byte may be taken for a slash that closes the element. -/
theorem step_of_inTag (hs : l.state = .inTag) (hb : Inert byte) : ∃ selfClosing,
    l.step byte = ({ l with offset := l.offset + 1, selfClosing := selfClosing }, none) := by
  obtain ⟨offset, state, tagStart, name, selfClosing, rawName⟩ := l
  obtain ⟨hlt, hgt, hdouble, hsingle⟩ := hb
  cases hs
  simp only [step, read, readInTag, hgt, hdouble, hsingle, or_self, if_false]
  split
  · exact ⟨true, rfl⟩
  · split
    · exact ⟨selfClosing, rfl⟩
    · exact ⟨false, rfl⟩

/-- A key leaves the lexer in the start tag. -/
theorem after_key (hs : l.state = .inTag) (h : InertText key) : ∃ offset selfClosing,
    l.after key = { l with offset := offset, selfClosing := selfClosing } ∧
      l.Keeps (TagState.Allows .inTag) key := by
  induction key generalizing l with
  | nil => exact ⟨l.offset, l.selfClosing, rfl, trivial⟩
  | cons byte key ih =>
    obtain ⟨hbyte, hkey⟩ := List.forall_mem_cons.mp h
    obtain ⟨sc, hstep⟩ := step_of_inTag hs hbyte
    obtain ⟨offset, selfClosing, hafter, hkeeps⟩ :=
      ih (l := { l with offset := l.offset + 1, selfClosing := sc }) hs hkey
    refine ⟨offset, selfClosing, ?_, ?_⟩
    · rw [after, List.foldl_cons, hstep]
      exact hafter
    · rw [Keeps, hstep]
      exact ⟨rfl, .inl hs, hkeeps⟩

/-- Behind a quoted value the lexer is in the start tag again. What has been taken for a slash is
taken back. -/
theorem after_value (hs : l.state = .inTag) (h : InertText value) :
    (l.after ('='.toUInt8 :: '"'.toUInt8 :: (value ++ ['"'.toUInt8]))).Agrees
        { l with selfClosing := false } ∧
      l.Keeps (TagState.Allows .inTag)
        ('='.toUInt8 :: '"'.toUInt8 :: (value ++ ['"'.toUInt8])) := by
  obtain ⟨offset, state, tagStart, name, selfClosing, rawName⟩ := l
  cases hs
  -- the lexer behind the opening quote, which has taken back the slash
  let inside : TagLexer := ⟨offset + 2, .quoted '"'.toUInt8, tagStart, name, false, rawName⟩
  have hover : inside.PassesOver value := passesOver_of_inert (.inl rfl) h
  have hstate : (inside.after value).state = .quoted '"'.toUInt8 := hover.agrees.state
  have hquote : ((inside.after value).step '"'.toUInt8).2 = none := by simp [step, read, hstate]
  have hbehind : ((inside.after value).step '"'.toUInt8).1.Agrees
      ⟨offset, .inTag, tagStart, name, false, rawName⟩ :=
    (hover.agrees.step '"'.toUInt8).trans ⟨rfl, rfl, rfl, rfl⟩
  have hkeeps : inside.Keeps (TagState.Allows .inTag) value := by
    refine hover.keeps.mono ?_
    rintro s (rfl | ⟨⟨⟩, -⟩)
    exact .inr ⟨rfl, rfl⟩
  have hclosed : (inside.after value).Keeps (TagState.Allows .inTag) ['"'.toUInt8] :=
    ⟨hquote, .inl hbehind.state, trivial⟩
  refine ⟨?_, rfl, .inl rfl, rfl, .inr ⟨rfl, rfl⟩, hkeeps.append hclosed⟩
  show (inside.after (value ++ ['"'.toUInt8])).Agrees _
  rw [after_append]
  exact hbehind

/-- A blank changes nothing, and a quote takes back what has been taken for a slash. -/
theorem passesOver_attributeBytes (hs : l.state = .inTag) (hc : l.selfClosing = false)
    (hkey : InertText key) (hvalue : InertText value) :
    l.PassesOver (attributeBytes key value) := by
  have hblank : l.step ' '.toUInt8 = ({ l with offset := l.offset + 1 }, none) := by
    obtain ⟨offset, state, tagStart, name, selfClosing, rawName⟩ := l
    cases hs
    rfl
  refine .cons hblank ?_
  obtain ⟨offset, selfClosing, hafter, hkeeps⟩ :=
    after_key (l := { l with offset := l.offset + 1 }) hs hkey
  obtain ⟨hagrees, hkeeps'⟩ :=
    after_value (l := { l with offset := offset, selfClosing := selfClosing }) hs hvalue
  refine ⟨?_, ?_⟩
  · rw [after_append, hafter]
    exact hagrees.trans ⟨rfl, rfl, hc.symm, rfl⟩
  · have hall := hkeeps.append (hafter ▸ hkeeps')
    exact hs ▸ hall

theorem passesOver_of_attributes (hs : l.state = .inTag) (hc : l.selfClosing = false)
    (h : AttributeText bytes) : l.PassesOver bytes := by
  induction h generalizing l with
  | nil => exact .nil l
  | cons hkey hvalue _ ih =>
    have hfirst := passesOver_attributeBytes hs hc hkey hvalue
    exact hfirst.append (ih (hfirst.agrees.state.trans hs) (hfirst.agrees.selfClosing.trans hc))

/-! ## 4. Where markers stand -/

/-- A value is in quotes. -/
def InQuotes (l : TagLexer) : Prop :=
  ∀ quote, l.state = .quoted quote → quote = '"'.toUInt8 ∨ quote = '\''.toUInt8

theorem InQuotes.step (h : l.InQuotes) (byte : UInt8) : (l.step byte).1.InQuotes := by
  suffices hread : (l.read byte).1.InQuotes from hread
  obtain ⟨offset, state, tagStart, name, selfClosing, rawName⟩ := l
  intro quote hquote
  cases state <;>
    simp only [read, readText, readLessThan, readLessThanSlash, readTagName, readInTag,
      readEndTagName, readRawText, endStartTag, endEndTag, startName, growName,
      TagState.afterBang, TagState.afterComment] at hquote <;>
    (repeat' split at hquote) <;>
    first | exact h quote hquote | (cases hquote; assumption) | cases hquote

theorem InQuotes.after (h : l.InQuotes) (bytes : List UInt8) : (l.after bytes).InQuotes := by
  induction bytes generalizing l with
  | nil => exact h
  | cons byte bytes ih => exact ih (h.step byte)

theorem inQuotes_after (bytes : List UInt8) : (TagLexer.after {} bytes).InQuotes :=
  .after (fun _ h => by cases h) bytes

/-- A marker that does not move the lexer stands where inert text is passed over, if it does not
stand in a tag or a comment. It may stand in a value. -/
theorem steady_of_interrupt (hq : l.InQuotes) (hi : l.interrupt = l)
    (hc : l.state.inComment = false) (hs : l.state.inStartTag = false)
    (he : l.state.isInEndTag = false) : l.state.Steady := by
  have hstate : l.state.interrupted = l.state := congrArg TagLexer.state hi
  cases h : l.state with
  | text | declaration => trivial
  | quoted quote => exact hq quote h
  | rawText matched =>
    cases matched with
    | zero => trivial
    | succ matched => simp [h, TagState.interrupted] at hstate
  | comment dashes => simp [h, TagState.inComment] at hc
  | inTag | tagName => simp [h, TagState.inStartTag] at hs
  | inEndTag | endTagName => simp [h, TagState.isInEndTag] at he
  -- an interruption leads away from these, so the lexer is not as it was
  | lessThan | lessThanSlash | bang dashes => simp [h, TagState.interrupted] at hstate

/-- Between attributes, the lexer has forgotten the slash that might close the element. -/
theorem inTag_of_interrupt (hi : l.interrupt = l) (hs : l.state.inStartTag = true) :
    l.state = .inTag ∧ l.selfClosing = false := by
  have hstate : l.state.interrupted = l.state := congrArg TagLexer.state hi
  have hslash := congrArg TagLexer.selfClosing hi
  cases h : l.state with
  | inTag => simpa [interrupt, h, TagState.interrupted] using hslash.symm
  | tagName => simp [h, TagState.interrupted] at hstate
  | _ => simp [h, TagState.inStartTag] at hs

end TagLexer

/-! ## 5. Escaped text -/

namespace Entity

theorem inert_of_html_eq_none {byte : UInt8} (h : html byte = none) : Inert byte := by
  refine ⟨?_, ?_, ?_, ?_⟩ <;> rintro rfl <;> cases h

/-- What has been found not to be special is copied as it is. -/
theorem inertText_extract {bytes : ByteArray} {start stop : Nat} (hstop : stop ≤ bytes.size)
    (h : ∀ j (hj : j < bytes.size), start ≤ j → j < stop → html bytes[j] = none) :
    InertText (bytes.extract start stop).data.toList := by
  intro byte hbyte
  obtain ⟨j, hj, rfl⟩ := List.getElem_of_mem hbyte
  have hlt : j < min (stop - start) (bytes.size - start) := by simpa using hj
  have hat : start + j < stop := by omega
  have hnone := h (start + j) (Nat.lt_of_lt_of_le hat hstop) (Nat.le_add_right _ _) hat
  have heq : (bytes.extract start stop).data.toList[j] = bytes[start + j] := by
    simp [ByteArray.getElem_eq_getElem_data]
  rw [heq]
  exact inert_of_html_eq_none hnone

/-- None of the bytes that are written is special. -/
theorem inertText_escaped (bytes : List UInt8) : InertText (html.escaped bytes) := by
  intro byte hbyte
  have hnot := not_forbidden_of_mem_escaped hbyte
  refine ⟨?_, ?_, ?_, ?_⟩ <;> rintro rfl <;> exact hnot (by decide)

/-- Escaped text is inert, whatever the text. -/
theorem exists_inert_of_appendEscaped (out bytes : ByteArray) : ∃ inert : ByteArray,
    InertText inert.data.toList ∧ appendEscaped html out bytes = out ++ inert := by
  refine ⟨(html.escaped bytes.data.toList).toByteArray, ?_, ByteArray.ext (Array.toList_inj.mp ?_)⟩
  · rw [List.data_toByteArray]
    exact inertText_escaped _
  · rw [appendEscaped_eq, ByteArray.data_append, Array.toList_append, List.data_toByteArray]

end Entity

end HtmlTemplate
