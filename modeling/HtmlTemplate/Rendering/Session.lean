import HtmlTemplate.Response

/-!
# Rendering as a computation

Rendering changes a `Session`: the response, and a world of which the library
knows nothing and which only callbacks read and change (a counter, a log of
calls). A computation in `Render` may end in a `Fault`. Compiled templates and
callbacks that use the functions of this library lead to none of the faults of
rendering itself; `Fault.overflow` is raised by callbacks that compute.
-/

namespace HtmlTemplate

/-- What can go wrong in a render. -/
inductive Fault where
  /-- A piece of literal bytes is asked for that does not exist. -/
  | noLiteral (start stop size : Nat)
  | noMarker (index : Nat)
  | noElement (index : Nat)
  /-- A wrapper is opened or closed for which the ending stack has no frame. -/
  | noFrame (depth : Nat)
  /-- A wrapper start without an end. -/
  | unpairedStart (index : Nat)
  /-- A wrapper end with no wrapper open. -/
  | nothingOpen
  /-- Wrappers are still open at the end of a component that has no caller to
  hand their endings to. -/
  | endingsLeft (depth : Nat)
  /-- The cursor of a walk does not move forward. -/
  | stuck (marker : Nat)
  /-- A sum leaves the range of its type. -/
  | overflow
  deriving DecidableEq, Repr

/-- The message of a fault. -/
def Fault.message : Fault → String
  | noLiteral start stop size =>
    "literal bytes " ++ toString start ++ " to " ++ toString stop ++ " of " ++ toString size
  | noMarker index => "no marker " ++ toString index
  | noElement index => "no element " ++ toString index
  | noFrame depth => "no frame for wrapper depth " ++ toString depth
  | unpairedStart index => "wrapper start " ++ toString index ++ " has no end"
  | nothingOpen => "wrapper end without an open wrapper"
  | endingsLeft depth =>
    "ending stack not empty (" ++ toString depth ++ " frames) at the end of a component"
  | stuck marker => "no progress at marker " ++ toString marker
  | overflow => "attempt to add with overflow"

/-- What a render reads and changes. -/
structure Session (ω : Type) where
  response : Response
  world : ω

/-- A session with a fresh response. -/
def Session.fresh {ω : Type} (world : ω) : Session ω := { response := {}, world := world }

/-- A computation that renders. -/
abbrev Render (ω : Type) : Type → Type := StateT (Session ω) (Except Fault)

namespace Render

variable {ω : Type}

/-- Changes the response. -/
@[inline] def modifyResponse (f : Response → Response) : Render ω Unit :=
  modify fun s => { s with response := f s.response }

/-- Changes the world. -/
@[inline] def modifyWorld (f : ω → ω) : Render ω Unit :=
  modify fun s => { s with world := f s.world }

/-- The response as it is now. -/
def response : Render ω Response := do return (← get).response

/-- Whether the response is halted. -/
def isHalted : Render ω Bool := do return (← get).response.halted

/-- The number of bytes written. -/
def outputSize : Render ω Nat := do return (← get).response.size

/-! ## What callbacks do -/

/-- Writes text escaped for HTML. -/
def write (text : String) : Render ω Unit := modifyResponse (·.write text)

/-- Writes HTML as it is. -/
def writeRaw (html : String) : Render ω Unit := modifyResponse (·.writeRaw html)

/-- Writes bytes escaped for HTML. -/
def writeBytes (bytes : ByteArray) : Render ω Unit := modifyResponse (·.writeBytes bytes)

/-- Writes bytes as they are. -/
def writeRawBytes (bytes : ByteArray) : Render ω Unit := modifyResponse (·.writeRawBytes bytes)

/-- Writes a number in decimal. -/
def writeInt (n : Int) : Render ω Unit := write (toString n)

/-- Stops rendering. -/
def halt : Render ω Unit := modifyResponse (·.halt)

def setStatus (status : UInt16) : Render ω Unit := modifyResponse (·.setStatus status)

/-- Answers with a redirect and stops rendering. -/
def redirect (status : UInt16) (target : String) : Render ω Unit :=
  modifyResponse (·.redirect status target)

/-- Gives the request up as one that cannot be served now, and stops rendering. -/
def giveUp : Render ω Unit := modifyResponse (·.giveUp)

end Render

end HtmlTemplate
