import HtmlTemplate.Markup.TagReader

/-!
# What reading a byte does

The states of a lexer fall into three stages: outside of tags, behind a `<` that
may turn out to start a tag or does start an end tag, and in a start tag. What
is proved about the tags in literal bytes depends on the stage only.

Results:
1. `reads_step`: a byte keeps the stage or changes it in one of a few ways, and
   the offsets in the tag that it ends are those of its `<` and its `>`.
2. `stage_interrupted`, `stage_of_inStartTag`, `stage_of_insideTag`: the stage at a
   marker.
-/

namespace HtmlTemplate

open Markup

/-! ## 1. Stages -/

inductive TagStage where
  | outside
  /-- Behind a `<` that may start a tag, or in an end tag. -/
  | started
  /-- In a start tag. -/
  | opening
  deriving DecidableEq, Repr

/-- The stage that a state belongs to. -/
def TagState.stage : TagState → TagStage
  | lessThan | lessThanSlash | endTagName | inEndTag => .started
  | rawText (_ + 1) => .started
  | tagName | inTag | quoted _ => .opening
  | text | bang _ | comment _ | declaration | rawText 0 => .outside

theorem TagState.stage_afterBang (dashes : Nat) (byte : UInt8) :
    (TagState.afterBang dashes byte).stage = .outside := by
  unfold afterBang
  split
  · split <;> rfl
  · split <;> rfl

theorem TagState.stage_afterComment (dashes : Nat) (byte : UInt8) :
    (TagState.afterComment dashes byte).stage = .outside := by
  unfold afterComment
  split
  · rfl
  · split <;> rfl

namespace TagLexer

/-- What reading a byte may do to the stage, and the tag that it reports. -/
inductive Reads (l : TagLexer) : TagLexer → Option Tag → Prop
  | outside {l' : TagLexer} :
      l.state.stage ≠ .opening → l'.state.stage = .outside → Reads l l' none
  /-- The byte is a `<`. -/
  | start {l' : TagLexer} :
      l.state.stage ≠ .opening → l'.state.stage = .started → l'.tagStart = l.offset →
      Reads l l' none
  | started {l' : TagLexer} :
      l.state.stage = .started → l'.state.stage = .started → l'.tagStart = l.tagStart →
      Reads l l' none
  | opening {l' : TagLexer} :
      l.state.stage ≠ .outside → l'.state.stage = .opening → l'.tagStart = l.tagStart →
      Reads l l' none
  /-- The byte ends a start tag. -/
  | openTag {l' : TagLexer} {name : TagName} {selfClosing : Bool} :
      l.state.stage = .opening → l'.state.stage = .outside →
      Reads l l' (some (.opening name selfClosing (l.offset + 1)))
  /-- The byte ends an end tag. -/
  | closeTag {l' : TagLexer} {name : TagName} :
      l.state.stage = .started → l'.state.stage = .outside →
      Reads l l' (some (.closing name l.tagStart (l.offset + 1)))

/-! ## 2. Single states -/

variable {l : TagLexer}

theorem reads_readText (h : l.state.stage ≠ .opening) (byte : UInt8) :
    Reads l (l.readText byte) none := by
  unfold readText
  split
  · exact .start h rfl rfl
  · exact .outside h rfl

theorem reads_readLessThan (h : l.state = .lessThan) (byte : UInt8) :
    Reads l (l.readLessThan byte) none := by
  have hs : l.state.stage = .started := by rw [h]; rfl
  have hne : l.state.stage ≠ .opening := by simp [hs]
  unfold readLessThan
  split
  · exact .started hs rfl rfl
  · split
    · exact .outside hne rfl
    · split
      · exact .outside hne rfl
      · split
        · exact .opening (by simp [hs]) rfl rfl
        · exact reads_readText hne byte

theorem reads_readLessThanSlash (h : l.state = .lessThanSlash) (byte : UInt8) :
    Reads l (l.readLessThanSlash byte) none := by
  have hs : l.state.stage = .started := by rw [h]; rfl
  have hne : l.state.stage ≠ .opening := by simp [hs]
  unfold readLessThanSlash
  split
  · exact .outside hne rfl
  · split
    · exact .started hs rfl rfl
    · exact .outside hne rfl

theorem reads_endStartTag (h : l.state.stage = .opening) :
    Reads l l.endStartTag.1 l.endStartTag.2 := by
  unfold endStartTag
  simp only
  split
  · exact .openTag h rfl
  · exact .openTag h rfl

theorem reads_readTagName (h : l.state = .tagName) (byte : UInt8) :
    Reads l (l.readTagName byte).1 (l.readTagName byte).2 := by
  have hs : l.state.stage = .opening := by rw [h]; rfl
  have hne : l.state.stage ≠ .outside := by simp [hs]
  unfold readTagName
  split
  · exact reads_endStartTag hs
  · split
    · exact .opening hne rfl rfl
    · split
      · exact .opening hne rfl rfl
      · exact .opening hne hs rfl

theorem reads_readInTag (h : l.state = .inTag) (byte : UInt8) :
    Reads l (l.readInTag byte).1 (l.readInTag byte).2 := by
  have hs : l.state.stage = .opening := by rw [h]; rfl
  have hne : l.state.stage ≠ .outside := by simp [hs]
  unfold readInTag
  split
  · exact reads_endStartTag hs
  · split
    · exact .opening hne rfl rfl
    · split
      · exact .opening hne hs rfl
      · split
        · exact .opening hne hs rfl
        · exact .opening hne hs rfl

theorem reads_endEndTag {name : TagName} (h : l.state.stage = .started) :
    Reads l { l with name := name }.endEndTag.1 { l with name := name }.endEndTag.2 :=
  .closeTag h rfl

theorem reads_readEndTagName (h : l.state = .endTagName) (byte : UInt8) :
    Reads l (l.readEndTagName byte).1 (l.readEndTagName byte).2 := by
  have hs : l.state.stage = .started := by rw [h]; rfl
  unfold readEndTagName
  split
  · exact reads_endEndTag hs
  · split
    · exact .started hs rfl rfl
    · exact .started hs hs rfl

theorem reads_readRawText {matched : Nat} (h : l.state = .rawText matched) (byte : UInt8) :
    Reads l (l.readRawText matched byte).1 (l.readRawText matched byte).2 := by
  have hne : l.state.stage ≠ .opening := by
    rw [h]
    cases matched <;> simp [TagState.stage]
  -- Once something has matched, a `<` has been read.
  have hs : 0 < matched → l.state.stage = .started := by
    intro hm
    obtain ⟨n, rfl⟩ : ∃ n, matched = n + 1 := ⟨matched - 1, by omega⟩
    rw [h]
    rfl
  unfold readRawText
  split
  · exact .start hne rfl rfl
  · split
    · next hm => exact .started (hs (by omega)) rfl rfl
    · split
      · next hm => exact .started (hs (by omega)) rfl rfl
      · split
        · next hm => exact reads_endEndTag (hs (by omega))
        · split
          · next hm => exact .started (hs (by omega)) rfl rfl
          · exact .outside hne rfl

/-! ## 3. Bytes -/

theorem reads_read (l : TagLexer) (byte : UInt8) : Reads l (l.read byte).1 (l.read byte).2 := by
  unfold read
  split
  · next h => exact reads_readText (by simp [h, TagState.stage]) byte
  · next h => exact reads_readLessThan h byte
  · next h => exact reads_readLessThanSlash h byte
  · next h => exact reads_readTagName h byte
  · next h => exact reads_readInTag h byte
  · next h =>
    have hs : l.state.stage = .opening := by rw [h]; rfl
    have hne : l.state.stage ≠ .outside := by simp [hs]
    split
    · exact .opening hne rfl rfl
    · exact .opening hne hs rfl
  · next h => exact reads_readEndTagName h byte
  · next h =>
    have hs : l.state.stage = .started := by rw [h]; rfl
    split
    · exact reads_endEndTag hs
    · exact .started hs hs rfl
  · next h => exact .outside (by simp [h, TagState.stage]) (TagState.stage_afterBang _ _)
  · next h => exact .outside (by simp [h, TagState.stage]) (TagState.stage_afterComment _ _)
  · next h =>
    have hs : l.state.stage = .outside := by rw [h]; rfl
    split
    · exact .outside (by simp [hs]) rfl
    · exact .outside (by simp [hs]) hs
  · next h => exact reads_readRawText h byte

theorem reads_step (l : TagLexer) (byte : UInt8) : Reads l (l.step byte).1 (l.step byte).2 := by
  have h := reads_read l byte
  unfold step
  generalize l.read byte = next at h ⊢
  obtain ⟨l', tag⟩ := next
  cases h with
  | outside h h' => exact .outside h h'
  | start h h' ht => exact .start h h' ht
  | started h h' ht => exact .started h h' ht
  | opening h h' ht => exact .opening h h' ht
  | openTag h h' => exact .openTag h h'
  | closeTag h h' => exact .closeTag h h'

/-! ## 4. Markers -/

@[simp] theorem offset_interrupt (l : TagLexer) : l.interrupt.offset = l.offset := rfl

@[simp] theorem state_interrupt (l : TagLexer) : l.interrupt.state = l.state.interrupted := rfl

end TagLexer

/-- A marker may end a stage, but does not begin one. -/
theorem TagState.stage_interrupted (s : TagState) :
    s.interrupted.stage = .outside ∨ s.interrupted.stage = s.stage := by
  cases s <;> simp [interrupted, stage]

/-- A marker does not begin or end a start tag. -/
theorem TagState.stage_interrupted_eq_opening (s : TagState) :
    s.interrupted.stage = .opening ↔ s.stage = .opening := by
  cases s with
  | rawText matched => cases matched <;> simp [interrupted, stage]
  | _ => simp [interrupted, stage]

/-- Behind a marker that is not in an end tag, no tag has been started and not decided. -/
theorem TagState.stage_interrupted_ne_started {s : TagState}
    (h : s.interrupted.isInEndTag = false) : s.interrupted.stage ≠ .started := by
  cases s <;> simp_all [interrupted, stage, isInEndTag]

namespace TagReader

variable {r : TagReader}

@[simp] theorem lexer_attachMarker (r : TagReader) : r.attachMarker.1.lexer = r.lexer := rfl

theorem stage_of_inStartTag (h : r.inStartTag = true) : r.lexer.state.stage = .opening := by
  unfold inStartTag at h
  cases hs : r.lexer.state <;> simp_all [TagState.inStartTag, TagState.stage]

/-- At a marker that is in no tag, nothing is left of what came before. -/
theorem stage_of_insideTag (h : r.interrupt.insideTag = false) :
    r.interrupt.lexer.state.stage = .outside := by
  unfold insideTag interrupt at h
  show r.lexer.state.interrupted.stage = .outside
  simp only [TagLexer.state_interrupt] at h
  cases hs : r.lexer.state <;>
    simp_all [TagState.insideTag, TagState.interrupted, TagState.inStartTag, TagState.isInEndTag,
      TagState.inValue, TagState.stage]

theorem insideTag_of_stage (h : r.lexer.state.stage = .opening) : r.insideTag = true := by
  unfold insideTag
  cases hs : r.lexer.state with
  | rawText matched => cases matched <;> simp_all [TagState.stage]
  | _ => simp_all [TagState.insideTag, TagState.inStartTag, TagState.inValue, TagState.stage]

end TagReader

end HtmlTemplate
