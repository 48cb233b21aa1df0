import HtmlTemplate.Text.Utf8

/-!
# Addresses and their parameters

An address is a path, and after the first question mark a query. A query is a
list of pairs divided by ampersands. The value of a parameter is percent-decoded;
a plus sign stands for a space, and a malformed escape stands for itself.
-/

namespace HtmlTemplate.Http

/-- The text before the first `c`, and the text after it. -/
def splitAt (c : Char) (cs : List Char) : List Char × List Char :=
  (cs.takeWhile (· ≠ c), (cs.dropWhile (· ≠ c)).drop 1)

/-- The pieces of a text between all occurrences of `c`. There is one more piece
than there are occurrences. -/
def splitOn (c : Char) : List Char → List (List Char)
  | [] => [[]]
  | x :: rest =>
    if x = c then [] :: splitOn c rest
    else
      match splitOn c rest with
      | [] => [[x]]
      | piece :: pieces => (x :: piece) :: pieces

/-- The path of an address. -/
def path (address : String) : String := String.ofList (splitAt '?' address.toList).1

/-- The query of an address. -/
def query (address : String) : List Char := (splitAt '?' address.toList).2

/-- The value of a hexadecimal digit. -/
def hexDigit? (byte : UInt8) : Option UInt8 :=
  if 0x30 ≤ byte ∧ byte ≤ 0x39 then some (byte - 0x30)
  else if 0x41 ≤ byte ∧ byte ≤ 0x46 then some (byte - 0x37)
  else if 0x61 ≤ byte ∧ byte ≤ 0x66 then some (byte - 0x57)
  else none

/-- The byte that a percent sign before these two bytes stands for. -/
def escaped? (high low : UInt8) : Option UInt8 := do
  return (← hexDigit? high) * 16 + (← hexDigit? low)

/-- Replaces escapes by the bytes they stand for. -/
def percentDecode : List UInt8 → List UInt8
  | 0x25 :: high :: low :: rest =>
    match escaped? high low with
    | some byte => byte :: percentDecode rest
    | none => 0x25 :: percentDecode (high :: low :: rest)
  | byte :: rest => byte :: percentDecode rest
  | [] => []

/-- The text that a value in a query stands for. -/
def decodeValue (value : List Char) : String :=
  let spaced := value.map fun c => if c = '+' then ' ' else c
  Utf8.toText (percentDecode (String.ofList spaced).toUTF8.data.toList).toByteArray

/-- Whether a pair of a query gives the parameter `name`. -/
def isPairOf (name : List Char) (pair : List Char) : Bool :=
  pair = name || (name ++ ['=']).isPrefixOf pair

/-- The value of a parameter: what stands between the first and the second equals
sign of the first pair that gives it. -/
def parameter? (address name : String) : Option String :=
  ((splitOn '&' (query address)).find? (isPairOf name.toList)).map fun pair =>
    decodeValue (((splitOn '=' pair)[1]?).getD [])

end HtmlTemplate.Http
