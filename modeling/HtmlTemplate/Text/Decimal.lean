/-!
# Decimal numbers

Reading an unsigned number below a bound: an optional plus sign and one or more
ASCII digits. The text is read from left to right, and the first thing that is
wrong with it is reported.
-/

namespace HtmlTemplate.Decimal

/-- Why a text is no number. -/
inductive NumberError where
  | empty
  | invalidDigit
  | tooLarge
  deriving DecidableEq, Repr

/-- The message of an error. -/
def NumberError.message : NumberError → String
  | empty => "cannot parse integer from empty string"
  | invalidDigit => "invalid digit found in string"
  | tooLarge => "number too large to fit in target type"

/-- The value of an ASCII digit. -/
def digit? (c : Char) : Option Nat :=
  if c.isDigit then some (c.toNat - '0'.toNat) else none

/-- Reads digits after the number `value`, which is below `bound`. -/
def readDigits (bound value : Nat) : List Char → Except NumberError Nat
  | [] => .ok value
  | c :: rest =>
    match digit? c with
    | none => .error .invalidDigit
    | some d =>
      let next := value * 10 + d
      if next < bound then readDigits bound next rest else .error .tooLarge

/-- The number below `bound` that the text writes. -/
def read (bound : Nat) : List Char → Except NumberError Nat
  | [] => .error .empty
  | ['+'] => .error .invalidDigit
  | '+' :: rest => readDigits bound 0 rest
  | cs => readDigits bound 0 cs

end HtmlTemplate.Decimal
