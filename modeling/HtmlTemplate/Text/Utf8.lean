/-!
# UTF-8 text out of arbitrary bytes

`Utf8.decodeLossy` reads any bytes as text. Well-formed characters are kept.
Every maximal ill-formed piece is read as one replacement character: a byte
that starts no character, or the start of a character that the next byte does
not continue.

`Utf8.toText` gives the text of bytes that are expected to be well-formed.
-/

namespace HtmlTemplate.Utf8

/-- The character that stands for an ill-formed piece. -/
def replacement : Char := '\uFFFD'

/-- A character that has been started: how many bytes it still owes, the bits
collected so far, and the range in which the next byte must lie. -/
structure Partial where
  owed : Nat
  value : Nat
  low : UInt8 := 0x80
  high : UInt8 := 0xBF
  deriving DecidableEq, Repr

/-- Reads `byte` at the start of a character: the characters it completes, and
the character it leaves open. The narrower ranges after `E0`, `ED`, `F0` and
`F4` rule out overlong forms, surrogates and values above `10FFFF`. -/
def start (byte : UInt8) : List Char × Option Partial :=
  let bits (mask : UInt8) : Nat := (byte &&& mask).toNat
  if byte < 0x80 then ([Char.ofNat byte.toNat], none)
  else if byte < 0xC2 then ([replacement], none)
  else if byte < 0xE0 then ([], some { owed := 1, value := bits 0x1F })
  else if byte = 0xE0 then ([], some { owed := 2, value := bits 0x0F, low := 0xA0 })
  else if byte = 0xED then ([], some { owed := 2, value := bits 0x0F, high := 0x9F })
  else if byte < 0xF0 then ([], some { owed := 2, value := bits 0x0F })
  else if byte = 0xF0 then ([], some { owed := 3, value := bits 0x07, low := 0x90 })
  else if byte < 0xF4 then ([], some { owed := 3, value := bits 0x07 })
  else if byte = 0xF4 then ([], some { owed := 3, value := bits 0x07, high := 0x8F })
  else ([replacement], none)

/-- Reads one byte after the open character `open?`. A byte that does not
continue it ends it as ill-formed and is read as a start itself. -/
def step (open? : Option Partial) (byte : UInt8) : List Char × Option Partial :=
  match open? with
  | none => start byte
  | some p =>
    if p.low ≤ byte ∧ byte ≤ p.high then
      let value := p.value * 64 + (byte &&& 0x3F).toNat
      if p.owed ≤ 1 then ([Char.ofNat value], none)
      else ([], some { owed := p.owed - 1, value := value })
    else
      let (chars, next) := start byte
      (replacement :: chars, next)

/-- The characters of `bytes` read after the open character `open?`. -/
def decodeFrom (open? : Option Partial) : List UInt8 → List Char
  | [] => if open?.isSome then [replacement] else []
  | byte :: rest =>
    let (chars, next) := step open? byte
    chars ++ decodeFrom next rest

/-- The text of `bytes`, with a replacement character for each maximal
ill-formed piece. -/
def decodeLossy (bytes : ByteArray) : String :=
  String.ofList (decodeFrom none bytes.data.toList)

/-- The text of `bytes`: exact where they are well-formed UTF-8. -/
def toText (bytes : ByteArray) : String :=
  (String.fromUTF8? bytes).getD (decodeLossy bytes)

end HtmlTemplate.Utf8
