import HtmlTemplate.Text.Utf8

/-!
# Tags

What literal bytes are told apart by, the names of elements that need special
care, and the tags that a lexer reports.
-/

namespace HtmlTemplate

/-- The bytes of a tag name in lower case. They need not be well-formed UTF-8. -/
abbrev TagName : Type := Array UInt8

namespace TagName

/-- The name that a text spells. -/
def ofString (s : String) : TagName := s.toUTF8.data

/-- The name as text. -/
def text (name : TagName) : String := Utf8.toText ⟨name⟩

end TagName

namespace Markup

/-- Whether `byte` is an ASCII letter. -/
def isLetter (byte : UInt8) : Bool :=
  (0x41 ≤ byte && byte ≤ 0x5A) || (0x61 ≤ byte && byte ≤ 0x7A)

/-- Whether `byte` is ASCII white space: tab, line feed, form feed, carriage
return or space. -/
def isSpace (byte : UInt8) : Bool :=
  byte = 0x20 || byte = 0x09 || byte = 0x0A || byte = 0x0C || byte = 0x0D

/-- The lower-case form of an ASCII letter; other bytes stay as they are. -/
def lower (byte : UInt8) : UInt8 :=
  if 0x41 ≤ byte && byte ≤ 0x5A then byte + 0x20 else byte

/-- The elements that have no end tag. -/
def voidNames : List String :=
  ["area", "base", "basefont", "br", "col", "command", "embed", "hr", "img", "input", "isindex",
   "keygen", "link", "meta", "param", "source", "track", "wbr"]

/-- The elements whose text holds no tags but their own end tag. -/
def rawTextNames : List String := ["script", "style"]

/-- Whether an element of this name has no end tag. -/
def isVoid (name : TagName) : Bool := voidNames.any fun n => TagName.ofString n = name

/-- Whether an element of this name holds raw text. -/
def holdsRawText (name : TagName) : Bool := rawTextNames.any fun n => TagName.ofString n = name

end Markup

/-- A tag that has been read up to its `>`. -/
inductive Tag where
  /-- A start tag that ends before the offset `stop`. -/
  | opening (name : TagName) (selfClosing : Bool) (stop : Nat)
  /-- An end tag from the offset `start` to the offset `stop`. -/
  | closing (name : TagName) (start stop : Nat)
  deriving DecidableEq

end HtmlTemplate
