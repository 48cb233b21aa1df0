import HtmlTemplate.Proofs.Markup.Reading

/-!
# How tags are spelled

A lexer reports tags by their names and offsets. This module says what the literal
bytes are at these offsets: a tag starts with `<` or `</` and its name, up to the
case of letters, and ends with `>`.

Results:
1. `TagLexer.Spells`: what the bytes from the last `<` on are, for each state of the lexer.
2. `Spells.step`: a byte keeps it, and the tag that it ends is spelled as it says
   (`Tag.Spelled`). `Spells.interrupt`: so does a marker.
-/

namespace HtmlTemplate

open Markup

/-! ## 1. Bytes of a tag -/

/-- The bytes begin with `front` and a name, whose letters may be in any case. -/
def Begins (front : List UInt8) (name : TagName) (bytes : List UInt8) : Prop :=
  ∃ rest, bytes = front ++ rest ∧ name.toList <+: rest.map lower

/-- The bytes are `front` and a name, whose letters may be in any case. -/
def SpelledAs (front : List UInt8) (name : List UInt8) (bytes : List UInt8) : Prop :=
  ∃ rest, bytes = front ++ rest ∧ rest.map lower = name

/-- What start tags begin with. -/
def startFront : List UInt8 := ['<'.toUInt8]

/-- What end tags begin with. -/
def endFront : List UInt8 := ['<'.toUInt8, '/'.toUInt8]

section

variable {front name bytes : List UInt8} {tagName : TagName}

theorem Begins.append (h : Begins front tagName bytes) (more : List UInt8) :
    Begins front tagName (bytes ++ more) := by
  obtain ⟨rest, rfl, hname⟩ := h
  refine ⟨rest ++ more, by simp, hname.trans ?_⟩
  rw [List.map_append]
  exact List.prefix_append _ _

theorem Begins.ne_nil (h : Begins front tagName bytes) (hf : front ≠ []) : bytes ≠ [] := by
  obtain ⟨rest, rfl, -⟩ := h
  simp [hf]

theorem SpelledAs.begins (h : SpelledAs front tagName.toList bytes) :
    Begins front tagName bytes := by
  obtain ⟨rest, rfl, hname⟩ := h
  exact ⟨rest, rfl, hname ▸ List.prefix_rfl⟩

theorem SpelledAs.ne_nil (h : SpelledAs front name bytes) (hf : front ≠ []) : bytes ≠ [] := by
  obtain ⟨rest, rfl, -⟩ := h
  simp [hf]

/-- The name grows by a byte. -/
theorem SpelledAs.concat (h : SpelledAs front name bytes) (byte : UInt8) :
    SpelledAs front (name ++ [lower byte]) (bytes ++ [byte]) := by
  obtain ⟨rest, rfl, hname⟩ := h
  exact ⟨rest ++ [byte], by simp, by simp [hname]⟩

/-- The last byte is a slash, white space apart. -/
def EndsInSlash (bytes : List UInt8) : Prop :=
  ∃ front spaces, bytes = front ++ '/'.toUInt8 :: spaces ∧ ∀ byte ∈ spaces, isSpace byte = true

theorem endsInSlash_slash (bytes : List UInt8) : EndsInSlash (bytes ++ ['/'.toUInt8]) :=
  ⟨bytes, [], rfl, fun _ hb => absurd hb List.not_mem_nil⟩

theorem EndsInSlash.space {byte : UInt8} (h : EndsInSlash bytes) (hb : isSpace byte = true) :
    EndsInSlash (bytes ++ [byte]) := by
  obtain ⟨front, spaces, rfl, hspaces⟩ := h
  refine ⟨front, spaces ++ [byte], by simp, fun b hmem => ?_⟩
  rcases List.mem_append.mp hmem with hmem | hmem
  · exact hspaces b hmem
  · rw [List.mem_singleton.mp hmem]
    exact hb

theorem spelledAs_front (front : List UInt8) : SpelledAs front [] front := ⟨[], by simp, rfl⟩

end

/-! ## 2. States of the lexer -/

namespace TagLexer

/-- What the literal bytes from the last `<` on are in a state. -/
def Reading (l : TagLexer) (bytes : List UInt8) : TagState → Prop
  | .lessThan => bytes = startFront
  | .lessThanSlash => bytes = endFront
  | .tagName => SpelledAs startFront l.name.toList bytes ∧ l.selfClosing = false
  | .inTag => Begins startFront l.name bytes ∧ (l.selfClosing = true → EndsInSlash bytes)
  | .quoted _ => Begins startFront l.name bytes ∧ l.selfClosing = false
  | .endTagName => SpelledAs endFront l.name.toList bytes
  | .inEndTag => Begins endFront l.name bytes
  | .rawText 0 => True
  | .rawText 1 => bytes = startFront
  | .rawText (n + 2) =>
    SpelledAs endFront (l.rawName.toList.take n) bytes
  | .text | .bang _ | .comment _ | .declaration => True

/-- The lexer has read the literal bytes, and is right about those behind the last `<`. -/
structure Spells (l : TagLexer) (html : List UInt8) : Prop where
  offset_eq : l.offset = html.length
  reading : l.Reading (html.drop l.tagStart) l.state

end TagLexer

/-- The tag ends with the last of the literal bytes, `>`. In front of it a slash stands if
the tag is self-closing. -/
def Tag.Spelled (tag : Tag) (tagStart : Nat) (html : List UInt8) : Prop :=
  html.getLast? = some '>'.toUInt8 ∧
    match tag with
    | .opening name selfClosing _ => Begins startFront name (html.drop tagStart) ∧
      (selfClosing = true → EndsInSlash (html.drop tagStart).dropLast)
    | .closing name _ _ => Begins endFront name (html.drop tagStart)

namespace TagLexer

variable {l : TagLexer} {html : List UInt8} {byte : UInt8}

/-- What is said of the lexer that follows when one more byte is read, without counting it. -/
def Continues (l : TagLexer) (html : List UInt8) (next : TagLexer × Option Tag) : Prop :=
  next.1.Reading (html.drop next.1.tagStart) next.1.state ∧
    ∀ tag, next.2 = some tag → tag.Spelled l.tagStart html

/-! ## 3. Bytes -/

/-- Bytes of a tag that has been begun are followed by the next one. -/
theorem drop_concat {tagStart : Nat} (h : html.drop tagStart ≠ []) (byte : UInt8) :
    (html ++ [byte]).drop tagStart = html.drop tagStart ++ [byte] := by
  refine List.drop_append_of_le_length (Nat.le_of_lt (Nat.not_le.mp fun hle => h ?_))
  exact List.drop_eq_nil_of_le hle

theorem continues_readText (h : l.offset = html.length) (byte : UInt8) :
    l.Continues (html ++ [byte]) (l.readText byte, none) := by
  refine ⟨?_, fun tag htag => by cases htag⟩
  unfold readText
  split
  · next hb =>
    subst hb
    show (html ++ ['<'.toUInt8]).drop l.offset = startFront
    rw [h, List.drop_left]
    rfl
  · trivial

theorem continues_readLessThan (h : l.offset = html.length)
    (hs : html.drop l.tagStart = startFront) (byte : UInt8) :
    l.Continues (html ++ [byte]) (l.readLessThan byte, none) := by
  have hdrop := drop_concat (show html.drop l.tagStart ≠ [] by simp [hs, startFront]) byte
  have hname : SpelledAs startFront [lower byte] ((html ++ [byte]).drop l.tagStart) := by
    rw [hdrop, hs]
    exact (spelledAs_front _).concat byte
  refine ⟨?_, fun tag htag => by cases htag⟩
  unfold readLessThan
  split
  · next hb =>
    subst hb
    show (html ++ ['/'.toUInt8]).drop l.tagStart = endFront
    rw [hdrop, hs]
    rfl
  · split
    · trivial
    · split
      · trivial
      · split
        · exact ⟨hname, rfl⟩
        · exact (continues_readText h byte).1

theorem continues_readLessThanSlash (hs : html.drop l.tagStart = endFront)
    (byte : UInt8) : l.Continues (html ++ [byte]) (l.readLessThanSlash byte, none) := by
  have hdrop := drop_concat (show html.drop l.tagStart ≠ [] by simp [hs, endFront]) byte
  have hname : SpelledAs endFront [lower byte]
      ((html ++ [byte]).drop l.tagStart) := by
    rw [hdrop, hs]
    exact (spelledAs_front _).concat byte
  refine ⟨?_, fun tag htag => by cases htag⟩
  unfold readLessThanSlash
  split
  · trivial
  · split
    · exact hname
    · trivial

theorem continues_endStartTag (h : Begins startFront l.name (html.drop l.tagStart))
    (hslash : l.selfClosing = true → EndsInSlash (html.drop l.tagStart)) :
    l.Continues (html ++ ['>'.toUInt8]) l.endStartTag := by
  have htag : (Tag.opening l.name l.selfClosing (l.offset + 1)).Spelled l.tagStart
      (html ++ ['>'.toUInt8]) := by
    refine ⟨by simp, ?_⟩
    show Begins _ _ (List.drop _ (_ ++ _)) ∧ (_ → EndsInSlash (List.drop _ (_ ++ _)).dropLast)
    rw [drop_concat (h.ne_nil (by simp [startFront])), List.dropLast_concat]
    exact ⟨h.append _, hslash⟩
  unfold endStartTag
  simp only
  split
  · refine ⟨trivial, fun tag heq => ?_⟩
    cases heq
    exact htag
  · refine ⟨trivial, fun tag heq => ?_⟩
    cases heq
    exact htag

theorem continues_endEndTag {name : TagName}
    (h : Begins endFront name (html.drop l.tagStart)) :
    l.Continues (html ++ ['>'.toUInt8]) { l with name := name }.endEndTag := by
  refine ⟨trivial, fun tag heq => ?_⟩
  cases heq
  refine ⟨by simp, ?_⟩
  show Begins endFront name (List.drop l.tagStart (_ ++ _))
  rw [drop_concat (h.ne_nil (by simp [endFront]))]
  exact h.append _

/-- In a tag whose name is complete, any byte may follow. -/
theorem begins_concat {front : List UInt8} (hf : front ≠ [])
    (h : Begins front l.name (html.drop l.tagStart)) (byte : UInt8) :
    Begins front l.name ((html ++ [byte]).drop l.tagStart) := by
  rw [drop_concat (h.ne_nil hf)]
  exact h.append _

theorem spelledAs_growName {front : List UInt8} (hf : front ≠ [])
    (h : SpelledAs front l.name.toList (html.drop l.tagStart)) (byte : UInt8) :
    SpelledAs front (l.growName byte).name.toList
      ((html ++ [byte]).drop l.tagStart) := by
  rw [drop_concat (h.ne_nil hf), growName, Array.toList_push]
  exact h.concat byte

theorem continues_readTagName
    (h : SpelledAs startFront l.name.toList (html.drop l.tagStart))
    (hself : l.selfClosing = false) (hs : l.state = .tagName) (byte : UInt8) :
    l.Continues (html ++ [byte]) (l.readTagName byte) := by
  have hne : html.drop l.tagStart ≠ [] := h.ne_nil (by simp [startFront])
  have hbegins := begins_concat (by simp [startFront]) h.begins byte
  have hnot : ∀ {p : Prop}, l.selfClosing = true → p := by simp [hself]
  unfold readTagName
  split
  · next hb =>
    subst hb
    exact continues_endStartTag h.begins hnot
  · split
    · next hb =>
      refine ⟨⟨hbegins, fun _ => ?_⟩, fun tag htag => by cases htag⟩
      show EndsInSlash ((html ++ [byte]).drop l.tagStart)
      rw [drop_concat hne, hb]
      exact endsInSlash_slash _
    · split
      · exact ⟨⟨hbegins, hnot⟩, fun tag htag => by cases htag⟩
      · refine ⟨?_, fun tag htag => by cases htag⟩
        show (l.growName byte).Reading _ l.state
        rw [hs]
        exact ⟨spelledAs_growName (by simp [startFront]) h byte, hself⟩

theorem continues_readInTag (h : Begins startFront l.name (html.drop l.tagStart))
    (hslash : l.selfClosing = true → EndsInSlash (html.drop l.tagStart)) (hs : l.state = .inTag)
    (byte : UInt8) : l.Continues (html ++ [byte]) (l.readInTag byte) := by
  have hne : html.drop l.tagStart ≠ [] := h.ne_nil (by simp [startFront])
  have hbegins := begins_concat (by simp [startFront]) h byte
  unfold readInTag
  split
  · next hb =>
    subst hb
    exact continues_endStartTag h hslash
  · split
    · exact ⟨⟨hbegins, rfl⟩, fun tag htag => by cases htag⟩
    · split
      · next hb =>
        refine ⟨?_, fun tag htag => by cases htag⟩
        show TagLexer.Reading _ _ l.state
        rw [hs]
        refine ⟨hbegins, fun _ => ?_⟩
        show EndsInSlash ((html ++ [byte]).drop l.tagStart)
        rw [drop_concat hne, hb]
        exact endsInSlash_slash _
      · split
        · next hb =>
          refine ⟨?_, fun tag htag => by cases htag⟩
          show l.Reading _ l.state
          rw [hs]
          refine ⟨hbegins, fun hself => ?_⟩
          rw [drop_concat hne]
          exact (hslash hself).space hb
        · refine ⟨?_, fun tag htag => by cases htag⟩
          show TagLexer.Reading _ _ l.state
          rw [hs]
          exact ⟨hbegins, fun hself => by cases hself⟩

theorem continues_readEndTagName
    (h : SpelledAs endFront l.name.toList (html.drop l.tagStart))
    (hs : l.state = .endTagName) (byte : UInt8) :
    l.Continues (html ++ [byte]) (l.readEndTagName byte) := by
  unfold readEndTagName
  split
  · next hb =>
    subst hb
    exact continues_endEndTag h.begins
  · split
    · exact ⟨begins_concat (by simp [endFront]) h.begins byte, fun tag htag => by cases htag⟩
    · refine ⟨?_, fun tag htag => by cases htag⟩
      show (l.growName byte).Reading _ l.state
      rw [hs]
      exact spelledAs_growName (by simp [endFront]) h byte

theorem continues_readRawText {matched : Nat} (h : l.offset = html.length)
    (hr : l.Reading (html.drop l.tagStart) (.rawText matched)) (byte : UInt8) :
    l.Continues (html ++ [byte]) (l.readRawText matched byte) := by
  -- When all of the end tag but its end has matched, its name is that of the element.
  have hall : matched = l.rawName.size + 2 → Begins endFront l.rawName (html.drop l.tagStart) := by
    rintro rfl
    refine SpelledAs.begins ?_
    have hspelled : SpelledAs endFront (l.rawName.toList.take l.rawName.size) _ := hr
    rwa [List.take_of_length_le (by simp)] at hspelled
  unfold readRawText
  split
  · next hb =>
    subst hb
    refine ⟨?_, fun tag htag => by cases htag⟩
    show (html ++ ['<'.toUInt8]).drop l.offset = startFront
    rw [h, List.drop_left]
    rfl
  · split
    · next hm =>
      obtain ⟨rfl, rfl⟩ := hm
      have hone : html.drop l.tagStart = startFront := hr
      refine ⟨?_, fun tag htag => by cases htag⟩
      show SpelledAs endFront (l.rawName.toList.take 0) ((html ++ ['/'.toUInt8]).drop l.tagStart)
      rw [drop_concat (by simp [hone, startFront]), hone, List.take_zero]
      exact spelledAs_front endFront
    · split
      · next hm =>
        obtain ⟨n, rfl⟩ : ∃ n, matched = n + 2 := ⟨matched - 2, by omega⟩
        have hspelled : SpelledAs endFront (l.rawName.toList.take n) _ := hr
        have hbyte : l.rawName.toList[n]? = some (lower byte) := by simpa using hm.2
        refine ⟨?_, fun tag htag => by cases htag⟩
        show SpelledAs endFront (l.rawName.toList.take (n + 1)) ((html ++ [byte]).drop l.tagStart)
        rw [drop_concat (hspelled.ne_nil (by simp [endFront])), List.take_add_one, hbyte]
        exact hspelled.concat byte
      · split
        · next hm =>
          obtain ⟨hm, rfl⟩ := hm
          exact continues_endEndTag (hall hm)
        · split
          · next hm =>
            refine ⟨?_, fun tag htag => by cases htag⟩
            show Begins endFront l.rawName ((html ++ [byte]).drop l.tagStart)
            rw [drop_concat ((hall hm.1).ne_nil (by simp [endFront]))]
            exact (hall hm.1).append _
          · exact ⟨trivial, fun tag htag => by cases htag⟩

theorem reading_afterBang (l : TagLexer) (bytes : List UInt8) (dashes : Nat) (byte : UInt8) :
    l.Reading bytes (.afterBang dashes byte) := by
  unfold TagState.afterBang
  split
  · split <;> trivial
  · split <;> trivial

theorem reading_afterComment (l : TagLexer) (bytes : List UInt8) (dashes : Nat) (byte : UInt8) :
    l.Reading bytes (.afterComment dashes byte) := by
  unfold TagState.afterComment
  split
  · trivial
  · split <;> trivial

namespace Spells

theorem read (h : l.Spells html) (byte : UInt8) : l.Continues (html ++ [byte]) (l.read byte) := by
  have ho := h.offset_eq
  have hr := h.reading
  unfold TagLexer.read
  split
  · exact continues_readText ho byte
  · next hs =>
    rw [hs] at hr
    exact continues_readLessThan ho hr byte
  · next hs =>
    rw [hs] at hr
    exact continues_readLessThanSlash hr byte
  · next hs =>
    rw [hs] at hr
    exact continues_readTagName hr.1 hr.2 hs byte
  · next hs =>
    rw [hs] at hr
    exact continues_readInTag hr.1 hr.2 hs byte
  · next hs =>
    rw [hs] at hr
    have hbegins := begins_concat (by simp [startFront]) hr.1 byte
    refine ⟨?_, fun tag htag => by cases htag⟩
    split
    · exact ⟨hbegins, fun hself => absurd (hr.2.symm.trans hself) (by decide)⟩
    · rw [hs]
      exact ⟨hbegins, hr.2⟩
  · next hs =>
    rw [hs] at hr
    exact continues_readEndTagName hr hs byte
  · next hs =>
    rw [hs] at hr
    split
    · next hb =>
      subst hb
      exact continues_endEndTag hr
    · refine ⟨?_, fun tag htag => by cases htag⟩
      show l.Reading _ l.state
      rw [hs]
      exact begins_concat (by simp [endFront]) hr byte
  · exact ⟨reading_afterBang _ _ _ _, fun tag htag => by cases htag⟩
  · exact ⟨reading_afterComment _ _ _ _, fun tag htag => by cases htag⟩
  · next hs =>
    refine ⟨?_, fun tag htag => by cases htag⟩
    split
    · trivial
    · rw [hs]
      trivial
  · next hs =>
    rw [hs] at hr
    exact continues_readRawText ho hr byte

/-- A byte is read, and the tag that it ends is spelled as it says. -/
theorem step (h : l.Spells html) (byte : UInt8) :
    (l.step byte).1.Spells (html ++ [byte]) ∧
      ∀ tag, (l.step byte).2 = some tag → tag.Spelled l.tagStart (html ++ [byte]) := by
  have hread := h.read byte
  refine ⟨⟨?_, ?_⟩, hread.2⟩
  · rw [offset_step, h.offset_eq, List.length_append, List.length_singleton]
  · exact hread.1

/-- A marker stands at the current place. -/
theorem interrupt (h : l.Spells html) : l.interrupt.Spells html := by
  refine ⟨h.offset_eq, ?_⟩
  have hr := h.reading
  -- A slash in front of the marker does not make the tag self-closing any more.
  unfold TagLexer.interrupt
  cases hs : l.state with
  | tagName =>
    rw [hs] at hr
    exact ⟨SpelledAs.begins hr.1, fun hself => by cases hself⟩
  | inTag =>
    rw [hs] at hr
    exact ⟨hr.1, fun hself => by cases hself⟩
  | endTagName =>
    rw [hs] at hr
    exact SpelledAs.begins hr
  | quoted | inEndTag =>
    rw [hs] at hr
    exact hr
  | text | lessThan | lessThanSlash | bang | comment | declaration | rawText => trivial

end Spells

end TagLexer

end HtmlTemplate
