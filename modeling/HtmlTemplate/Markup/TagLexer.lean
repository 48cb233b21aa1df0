import HtmlTemplate.Markup.Tag

/-!
# Finding the tags in literal bytes

A `TagLexer` reads literal bytes one by one and reports every tag when it has
read its `>`. It knows just enough HTML not to take the wrong bytes for a tag:
quoted values, comments, declarations, and the text of scripts and styles.

A marker may stand between any two bytes. `interrupt` says what becomes of the
state then: a marker ends a tag name, and it makes text of a `<` that no tag
name follows.
-/

namespace HtmlTemplate

open Markup

/-- Where in the markup the next byte stands. -/
inductive TagState where
  | text
  /-- After `<`. -/
  | lessThan
  /-- After `</`. -/
  | lessThanSlash
  | tagName
  /-- In a start tag after its name. -/
  | inTag
  /-- In an attribute value that ends at the byte `quote`. -/
  | quoted (quote : UInt8)
  | endTagName
  /-- In an end tag after its name. -/
  | inEndTag
  /-- After `<!` and `dashes` dashes. -/
  | bang (dashes : Nat)
  /-- In a comment, after `dashes` dashes; more than two count as two. -/
  | comment (dashes : Nat)
  /-- In a declaration or processing instruction, up to its `>`. -/
  | declaration
  /-- In the text of a script or style, after `matched` bytes of its end tag. -/
  | rawText (matched : Nat)
  deriving DecidableEq, Repr

namespace TagState

/-- The state after a marker. -/
def interrupted : TagState → TagState
  | lessThan => text
  | lessThanSlash => text
  | tagName => inTag
  | endTagName => inEndTag
  | bang _ => declaration
  | rawText _ => rawText 0
  | text => text
  | inTag => inTag
  | quoted quote => quoted quote
  | inEndTag => inEndTag
  | comment dashes => comment dashes
  | declaration => declaration

/-- Between the attributes of a start tag, once the tag name has been ended. -/
def inStartTag : TagState → Bool
  | tagName | inTag => true
  | _ => false

/-- Anywhere inside an end tag. -/
def isInEndTag : TagState → Bool
  | endTagName | inEndTag => true
  | _ => false

/-- Inside a quoted attribute value. -/
def inValue : TagState → Bool
  | quoted _ => true
  | _ => false

/-- Anywhere inside a tag, quoted values included. -/
def insideTag (s : TagState) : Bool := s.inStartTag || s.isInEndTag || s.inValue

/-- The state after a byte that follows `<!` and `dashes` dashes. -/
def afterBang (dashes : Nat) (byte : UInt8) : TagState :=
  if byte = '-'.toUInt8 then if dashes = 1 then comment 0 else bang 1
  else if byte = '>'.toUInt8 then text
  else declaration

/-- The state after a byte of a comment that follows `dashes` dashes. -/
def afterComment (dashes : Nat) (byte : UInt8) : TagState :=
  if byte = '-'.toUInt8 then comment (min (dashes + 1) 2)
  else if byte = '>'.toUInt8 ∧ 2 ≤ dashes then text
  else comment 0

end TagState

/-- A lexer, and what it remembers of the tag being read. -/
structure TagLexer where
  /-- The number of bytes read. -/
  offset : Nat := 0
  state : TagState := .text
  /-- Offset of the last `<` that may start a tag. -/
  tagStart : Nat := 0
  /-- The name of the tag being read. -/
  name : TagName := #[]
  /-- The last byte of the start tag so far, white space apart, is a slash that
  closes the element. -/
  selfClosing : Bool := false
  /-- The name of the script or style whose text is being read. -/
  rawName : TagName := #[]
  deriving DecidableEq

namespace TagLexer

/-- A marker stands at the current place. -/
def interrupt (l : TagLexer) : TagLexer :=
  let state := l.state.interrupted
  { l with state := state, selfClosing := if state = .inTag then false else l.selfClosing }

/-! ## 1. Text and names -/

/-- Reads a byte of text. -/
def readText (l : TagLexer) (byte : UInt8) : TagLexer :=
  if byte = '<'.toUInt8 then { l with tagStart := l.offset, state := .lessThan }
  else { l with state := .text }

/-- Starts a tag name with the letter `byte`. -/
def startName (l : TagLexer) (byte : UInt8) (state : TagState) : TagLexer :=
  { l with name := #[lower byte], state := state }

/-- Adds a byte to the tag name. -/
def growName (l : TagLexer) (byte : UInt8) : TagLexer :=
  { l with name := l.name.push (lower byte) }

/-- Reads a byte after `<`. A byte that cannot follow it is read as text. -/
def readLessThan (l : TagLexer) (byte : UInt8) : TagLexer :=
  if byte = '/'.toUInt8 then { l with state := .lessThanSlash }
  else if byte = '!'.toUInt8 then { l with state := .bang 0 }
  else if byte = '?'.toUInt8 then { l with state := .declaration }
  else if isLetter byte then { l.startName byte .tagName with selfClosing := false }
  else l.readText byte

/-- Reads a byte after `</`. -/
def readLessThanSlash (l : TagLexer) (byte : UInt8) : TagLexer :=
  if byte = '>'.toUInt8 then { l with state := .text }
  else if isLetter byte then l.startName byte .endTagName
  else { l with state := .declaration }

/-! ## 2. Tags -/

/-- The `>` of a start tag is read. Raw text follows it if the element holds
some and is not closed by the tag itself. -/
def endStartTag (l : TagLexer) : TagLexer × Option Tag :=
  let tag := Tag.opening l.name l.selfClosing (l.offset + 1)
  if !l.selfClosing && holdsRawText l.name then
    ({ l with state := .rawText 0, rawName := l.name }, some tag)
  else ({ l with state := .text }, some tag)

/-- The `>` of an end tag is read. -/
def endEndTag (l : TagLexer) : TagLexer × Option Tag :=
  ({ l with state := .text }, some (.closing l.name l.tagStart (l.offset + 1)))

/-- Reads a byte of the name of a start tag. -/
def readTagName (l : TagLexer) (byte : UInt8) : TagLexer × Option Tag :=
  if byte = '>'.toUInt8 then l.endStartTag
  else if byte = '/'.toUInt8 then ({ l with selfClosing := true, state := .inTag }, none)
  else if isSpace byte then ({ l with state := .inTag }, none)
  else (l.growName byte, none)

/-- Reads a byte of a start tag after its name. -/
def readInTag (l : TagLexer) (byte : UInt8) : TagLexer × Option Tag :=
  if byte = '>'.toUInt8 then l.endStartTag
  else if byte = '"'.toUInt8 ∨ byte = '\''.toUInt8 then
    ({ l with selfClosing := false, state := .quoted byte }, none)
  else if byte = '/'.toUInt8 then ({ l with selfClosing := true }, none)
  else if isSpace byte then (l, none)
  else ({ l with selfClosing := false }, none)

/-- Reads a byte of the name of an end tag. -/
def readEndTagName (l : TagLexer) (byte : UInt8) : TagLexer × Option Tag :=
  if byte = '>'.toUInt8 then l.endEndTag
  else if isSpace byte then ({ l with state := .inEndTag }, none)
  else (l.growName byte, none)

/-- Reads a byte of raw text when `matched` bytes of `</` and the name have been
met. White space or `>` after the name ends the raw text. -/
def readRawText (l : TagLexer) (matched : Nat) (byte : UInt8) : TagLexer × Option Tag :=
  if byte = '<'.toUInt8 then ({ l with tagStart := l.offset, state := .rawText 1 }, none)
  else if matched = 1 ∧ byte = '/'.toUInt8 then ({ l with state := .rawText 2 }, none)
  else if 2 ≤ matched ∧ l.rawName[matched - 2]? = some (lower byte) then
    ({ l with state := .rawText (matched + 1) }, none)
  else if matched = l.rawName.size + 2 ∧ byte = '>'.toUInt8 then
    { l with name := l.rawName }.endEndTag
  else if matched = l.rawName.size + 2 ∧ isSpace byte then
    ({ l with name := l.rawName, state := .inEndTag }, none)
  else ({ l with state := .rawText 0 }, none)

/-! ## 3. Bytes -/

/-- Reads a byte at the current place, without counting it. -/
def read (l : TagLexer) (byte : UInt8) : TagLexer × Option Tag :=
  match l.state with
  | .text => (l.readText byte, none)
  | .lessThan => (l.readLessThan byte, none)
  | .lessThanSlash => (l.readLessThanSlash byte, none)
  | .tagName => l.readTagName byte
  | .inTag => l.readInTag byte
  | .quoted quote => (if byte = quote then { l with state := .inTag } else l, none)
  | .endTagName => l.readEndTagName byte
  | .inEndTag => if byte = '>'.toUInt8 then l.endEndTag else (l, none)
  | .bang dashes => ({ l with state := .afterBang dashes byte }, none)
  | .comment dashes => ({ l with state := .afterComment dashes byte }, none)
  | .declaration => (if byte = '>'.toUInt8 then { l with state := .text } else l, none)
  | .rawText matched => l.readRawText matched byte

/-- Reading a byte does not count it. -/
theorem offset_read (l : TagLexer) (byte : UInt8) : (l.read byte).1.offset = l.offset := by
  obtain ⟨offset, state, tagStart, name, selfClosing, rawName⟩ := l
  cases state <;>
    simp only [read, readText, readLessThan, readLessThanSlash, readTagName, readInTag,
      readEndTagName, readRawText, endStartTag, endEndTag, startName, growName] <;>
    (repeat' split) <;> rfl

/-- Reads one byte, and reports the tag that it ends. -/
def step (l : TagLexer) (byte : UInt8) : TagLexer × Option Tag :=
  let (next, tag) := l.read byte
  ({ next with offset := next.offset + 1 }, tag)

theorem offset_step (l : TagLexer) (byte : UInt8) : (l.step byte).1.offset = l.offset + 1 := by
  simp [step, offset_read]

/-- The lexer after some bytes. -/
def after (l : TagLexer) (bytes : List UInt8) : TagLexer :=
  bytes.foldl (fun l byte => (l.step byte).1) l

end TagLexer

end HtmlTemplate
