import HtmlTemplate.Rendering.Session

/-!
# The scopes of callbacks

A callback at a wrapper start or in a start tag can do more than write. What it
asks for is kept in its own scope, which the walk reads when the callback has
returned. A render that the callback starts has no access to the scope.

* `WrapperRender`: register endings, drop the content of the wrapper.
* `AttributeRender`: add attributes, drop the element or its content.
-/

namespace HtmlTemplate

/-- What is done when the end of a wrapper is reached. -/
abbrev Ending (ω : Type) : Type := Render ω Unit

/-- What a callback at a wrapper start has asked for. -/
structure WrapperScope (ω : Type) where
  /-- The endings registered, the last one first. -/
  endings : List (Ending ω) := []
  skipContent : Bool := false

/-- What a callback in a start tag has asked for. -/
structure AttributeScope where
  skipContent : Bool := false
  skipElement : Bool := false
  deriving DecidableEq, Repr

/-- The computation of a callback at a wrapper start. -/
abbrev WrapperRender (ω : Type) : Type → Type := StateT (WrapperScope ω) (Render ω)

/-- The computation of a callback in a start tag. -/
abbrev AttributeRender (ω : Type) : Type → Type := StateT AttributeScope (Render ω)

variable {ω : Type}

namespace WrapperRender

/-- Registers an ending. It runs before the endings registered so far. -/
def addEnding (ending : Ending ω) : WrapperRender ω Unit :=
  modify fun scope => { scope with endings := ending :: scope.endings }

/-- Drops everything between the wrapper start and its end. -/
def skipContent : WrapperRender ω Unit :=
  modify fun scope => { scope with skipContent := true }

end WrapperRender

namespace AttributeRender

/-- Writes an attribute, key and value escaped. -/
def addAttribute (key value : String) : AttributeRender ω Unit :=
  StateT.lift (Render.modifyResponse (·.addAttribute key value))

/-- Writes an attribute as it is, but for double quotes in the value. -/
def addRawAttribute (key value : String) : AttributeRender ω Unit :=
  StateT.lift (Render.modifyResponse (·.addRawAttribute key value))

/-- Writes an attribute without a value. -/
def addFlag (key : String) : AttributeRender ω Unit :=
  StateT.lift (Render.modifyResponse (·.addFlag key))

/-- Keeps the tags of the element and drops everything between them. -/
def skipContent : AttributeRender ω Unit :=
  modify fun scope => { scope with skipContent := true }

/-- Drops the element with its tags. -/
def skipElement : AttributeRender ω Unit :=
  modify fun scope => { scope with skipElement := true }

end AttributeRender

/-- Runs endings, the first in the list first, until one halts the response. -/
def runEndings : List (Ending ω) → Render ω Unit
  | [] => pure ()
  | ending :: rest => do
    unless ← Render.isHalted do
      ending
      runEndings rest

end HtmlTemplate
