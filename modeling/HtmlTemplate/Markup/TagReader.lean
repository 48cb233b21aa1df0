import HtmlTemplate.Markup.ElementTable
import HtmlTemplate.Markup.TagLexer

/-!
# Following the tags in literal bytes

A `TagReader` reads the literal bytes of a template. It tells where a marker
stands (in text, in a start tag, in a quoted value, in an end tag), and enters
the elements that carry attribute markers into a table.

* `feed` reads bytes. It stops at an end tag that closes an element at another
  wrapper depth than the one at which the element was opened.
* `interrupt` tells that a marker stands at the current place.
* `attachMarker` gives the element of the start tag being read.
* `markContent` tells that the content marker stands at the current place.
* `finish` gives the elements, if all of them are closed.
-/

namespace HtmlTemplate

structure TagReader where
  lexer : TagLexer := {}
  table : ElementTable := {}
  deriving DecidableEq

namespace TagReader

/-- The number of bytes read. -/
def offset (r : TagReader) : Nat := r.lexer.offset

/-- Between the attributes of a start tag, once the tag name has been ended. -/
def inStartTag (r : TagReader) : Bool := r.lexer.state.inStartTag

/-- Anywhere inside an end tag. -/
def inEndTag (r : TagReader) : Bool := r.lexer.state.isInEndTag

/-- Anywhere inside a tag, quoted values included. -/
def insideTag (r : TagReader) : Bool := r.lexer.state.insideTag

/-- A marker stands at the current place. -/
def interrupt (r : TagReader) : TagReader := { r with lexer := r.lexer.interrupt }

/-- The element of the start tag being read, which carries an attribute marker
here: its index, with the element entered into the table if it is new. -/
def attachMarker (r : TagReader) : TagReader × Nat :=
  let (table, index) := r.table.attach r.lexer.name r.lexer.tagStart
  ({ r with table := table }, index)

/-- The content marker stands at the current place. -/
def markContent (r : TagReader) : TagReader := { r with table := r.table.markContent }

/-- An element that is pending since a greater wrapper depth than `depth`. -/
def crossedAt? (r : TagReader) (depth : Nat) : Option String := r.table.crossedAt? depth

/-- Reads one byte. The second component names an element that the byte closes
at the wrong wrapper depth. -/
def step (r : TagReader) (around : Surroundings) (byte : UInt8) : TagReader × Option String :=
  let { lexer, table } := r
  match lexer.step byte with
  | (lexer, none) => ({ lexer := lexer, table := table }, none)
  | (lexer, some tag) =>
    let (table, crossed) := table.addTag around tag
    ({ lexer := lexer, table := table }, crossed)

/-- Reads bytes, up to and including one that closes an element at the wrong
wrapper depth, if there is one. -/
def feed (r : TagReader) (around : Surroundings) : List UInt8 → TagReader × Option String
  | [] => (r, none)
  | byte :: rest =>
    match r.step around byte with
    | (next, none) => next.feed around rest
    | (next, some name) => (next, some name)

/-- The elements in the order of their start tags, or the name of one that is
not closed. -/
def finish (r : TagReader) : Except String (Array Element) :=
  match r.table.unclosed? r.insideTag with
  | some name => .error name
  | none => .ok r.table.elements

end TagReader

end HtmlTemplate
