import HtmlTemplate.Text.Utf8

/-!
# Entities

Dynamic text goes into HTML with its special bytes replaced. A table says which
bytes are special and what stands for them. There are two tables: `html` for
text and quoted attribute values, and `doubleQuote` for values whose author
vouches for everything but the quote that ends them.

`appendEscaped` copies the runs between special bytes as they are, so text
without special bytes is appended in one piece. `escapeHtml` leaves such text
unchanged.
-/

namespace HtmlTemplate.Entity

/-- What stands for a special byte; `none` for all other bytes. -/
abbrev Table := UInt8 → Option ByteArray

/-- The bytes that are special in HTML text and in quoted attribute values.
A NUL byte has no entity and is replaced by U+FFFD. -/
def html : Table := fun byte =>
  if byte = 0x26 then some "&amp;".toUTF8
  else if byte = 0x3C then some "&lt;".toUTF8
  else if byte = 0x3E then some "&gt;".toUTF8
  else if byte = 0x22 then some "&#34;".toUTF8
  else if byte = 0x27 then some "&#39;".toUTF8
  else if byte = 0x00 then some (String.singleton Utf8.replacement).toUTF8
  else none

/-- The double quote only. -/
def doubleQuote : Table := fun byte =>
  if byte = 0x22 then some "&#34;".toUTF8 else none

/-- Appends `bytes` from offset `i` on to `out`. The run from `run` to `i` holds
no special byte and is not copied yet. -/
def appendRuns (table : Table) (bytes : ByteArray) (run i : Nat) (out : ByteArray) : ByteArray :=
  if h : i < bytes.size then
    match table bytes[i] with
    | some entity =>
      appendRuns table bytes (i + 1) (i + 1) (out ++ bytes.extract run i ++ entity)
    | none => appendRuns table bytes run (i + 1) out
  else out ++ bytes.extract run bytes.size
termination_by bytes.size - i

/-- Appends `bytes` to `out` with the special bytes of `table` replaced. -/
def appendEscaped (table : Table) (out bytes : ByteArray) : ByteArray :=
  appendRuns table bytes 0 0 out

/-- An escaped text, and whether it differs from the text given. -/
inductive Escaped where
  | unchanged (text : String)
  | changed (text : String)
  deriving DecidableEq, Repr

namespace Escaped

/-- The escaped text. -/
def text : Escaped → String
  | unchanged text => text
  | changed text => text

/-- Whether nothing had to be replaced. -/
def isUnchanged : Escaped → Bool
  | unchanged _ => true
  | changed _ => false

end Escaped

/-- Escapes `s` for HTML. The part before the first special byte is copied
without another look at it. -/
def escapeHtml (s : String) : Escaped :=
  let bytes := s.toUTF8
  match bytes.data.findIdx? fun byte => (html byte).isSome with
  | none => .unchanged s
  | some first =>
    .changed (Utf8.toText
      (appendEscaped html (bytes.extract 0 first) (bytes.extract first bytes.size)))

end HtmlTemplate.Entity
