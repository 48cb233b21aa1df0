import HtmlTemplate.Text.Blank
import HtmlTemplate.Text.Decimal
import HtmlTemplate.Text.Quoted

/-!
# Settings of the pools

How much the pools keep, and reading it from named variables. `PoolSettings.read`
looks the variables up one after the other, in the order of `PoolVariable`, and
stops at the first one that cannot be looked up or is no number.
-/

namespace HtmlTemplate

/-- How many items a pool keeps. -/
inductive PoolLimit where
  | items (count : Nat)
  | perProcessor (count : Nat)
  deriving DecidableEq, Repr

/-- The limit on a machine with this many processors. -/
def PoolLimit.count (processors : Nat) : PoolLimit → Nat
  | items count => count
  | perProcessor count => count * processors

structure PoolSettings where
  /-- Items kept per pool. Further items that are returned are dropped. -/
  maxPooled : PoolLimit := .perProcessor 4
  /-- Frames that an ending stack keeps when it is returned. -/
  maxStackFrames : Nat := 2
  /-- Endings for which a frame keeps room when it is returned. -/
  maxFrameCapacity : Nat := 2
  /-- Bytes for which a response keeps room when it is returned. -/
  maxOutputCapacity : Nat := 50000
  deriving DecidableEq, Repr

/-- The variables that settings are read from, in the order in which they are
looked up. -/
inductive PoolVariable where
  | poolSize
  | stackFrames
  | frameCapacity
  | outputCapacity
  deriving DecidableEq, Repr

/-- The name of a variable. -/
def PoolVariable.name : PoolVariable → String
  | poolSize => "MARKHTML_POOL_SIZE"
  | stackFrames => "MARKHTML_MAX_STACK_FRAMES"
  | frameCapacity => "MARKHTML_MAX_FRAME_CAPACITY"
  | outputCapacity => "MARKHTML_MAX_OUTPUT_CAPACITY"

/-- Why settings cannot be read. -/
inductive SettingsError where
  /-- A variable cannot be looked up, for a reason of the surroundings. -/
  | lookup (reason : String)
  | notUnicode (name : String)
  | number (name : String) (reason : Decimal.NumberError)
  deriving DecidableEq, Repr

namespace SettingsError

/-- What failed, without the cause. -/
def summary : SettingsError → String
  | lookup reason => reason
  | notUnicode name => Text.quoted name ++ " env var is not unicode"
  | number name _ => "parsing env var " ++ Text.quoted name

/-- What failed, and the cause if there is one. -/
def message : SettingsError → String
  | number name reason => (number name reason).summary ++ ": " ++ reason.message
  | e => e.summary

end SettingsError

/-- The text of a variable that is set to these bytes, or is not set. -/
def variableText (name : String) (value? : Option ByteArray) :
    Except SettingsError (Option String) :=
  match value? with
  | none => .ok none
  | some bytes =>
    match String.fromUTF8? bytes with
    | some text => .ok (some text)
    | none => .error (.notUnicode name)

namespace PoolSettings

/-- Numbers are below this bound, the number of 64-bit words. -/
def numberBound : Nat := UInt64.size

variable {m : Type → Type} [Monad m]

/-- The number that a variable is set to. White space around it is allowed. -/
def readNumber? (lookup : String → m (Except SettingsError (Option String)))
    (var : PoolVariable) : ExceptT SettingsError m (Option Nat) := do
  match ← ExceptT.mk (lookup var.name) with
  | none => return none
  | some text =>
    match Decimal.read numberBound (Text.trimBlank text.toList) with
    | .ok n => return some n
    | .error reason => throw (.number var.name reason)

/-- Reads the settings. A variable that is not set leaves the default. -/
def read (lookup : String → m (Except SettingsError (Option String))) :
    m (Except SettingsError PoolSettings) := ExceptT.run do
  let defaults : PoolSettings := {}
  let poolSize ← readNumber? lookup .poolSize
  let stackFrames ← readNumber? lookup .stackFrames
  let frameCapacity ← readNumber? lookup .frameCapacity
  let outputCapacity ← readNumber? lookup .outputCapacity
  return {
    maxPooled := (poolSize.map PoolLimit.items).getD defaults.maxPooled
    maxStackFrames := stackFrames.getD defaults.maxStackFrames
    maxFrameCapacity := frameCapacity.getD defaults.maxFrameCapacity
    maxOutputCapacity := outputCapacity.getD defaults.maxOutputCapacity }

/-- The settings read, or the defaults and a warning. -/
def orDefaults : Except SettingsError PoolSettings → PoolSettings × Option String
  | .ok settings => (settings, none)
  | .error e => ({}, some ("ignoring pool configuration: " ++ e.message))

end PoolSettings

end HtmlTemplate
