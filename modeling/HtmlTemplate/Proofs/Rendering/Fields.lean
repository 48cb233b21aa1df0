import HtmlTemplate.Proofs.Template.Compiled
import HtmlTemplate.Rendering.Walk

/-!
# Rendering on fields that all renders share

A callback asks for endings and skips in a scope of its own, which no other render can
reach. The response may as well have three fields for what callbacks ask for: one frame of
endings and two flags, once for all renders that nest in each other. A component that a
callback inserts then finds in the fields what the callback has asked for. It takes the
contents away, leaves the fields empty to its own callbacks, and puts the contents back at
its end, however it ends.

This module has the walk in that form. Here a callback, an ending or a payload is a
computation on the fields, and the renders inside of it work on the fields too. The frame
and the ending stack hold endings as they are known to the callbacks' scopes. `EndingCode`
says what runs for an ending on the fields, and `MarkerCode` what runs at a marker.

Contents:
1. `Fields`, `FieldRender`: computations on the fields.
2. `Component.runOnFields`, `Component.renderOnFields`, `Wrapper.renderOnFields`,
   `FieldRender.wrap`: rendering on the fields.
3. `Render.RunsAs`, `WrapperRender.RunsAs`, `AttributeRender.RunsAs`: a computation, and the
   same one on the fields, both made of the functions for callbacks.
-/

namespace HtmlTemplate

variable {ω δ α β : Type}

/-! ## 1. Fields -/

/-- What callbacks have asked for. -/
structure Fields (ω : Type) where
  /-- The endings registered, the first one first. -/
  frame : List (Ending ω) := []
  skipContent : Bool := false
  skipElement : Bool := false

/-- A world, and the fields of the response. -/
structure Fielded (ω : Type) where
  fields : Fields ω
  world : ω

/-- A computation that renders, and reads and changes the fields. -/
abbrev FieldRender (ω : Type) : Type → Type := Render (Fielded ω)

namespace Session

/-- The session of a response with these fields. -/
def within (s : Session ω) (fields : Fields ω) : Session (Fielded ω) :=
  { response := s.response, world := { fields := fields, world := s.world } }

/-- The session without the fields. -/
def bare (s : Session (Fielded ω)) : Session ω :=
  { response := s.response, world := s.world.world }

end Session

namespace FieldRender

/-- The fields as they are now. -/
def fields : FieldRender ω (Fields ω) := do return (← get).world.fields

def modifyFields (f : Fields ω → Fields ω) : FieldRender ω Unit :=
  Render.modifyWorld fun world => { world with fields := f world.fields }

/-- Takes everything out of the fields. -/
def takeFields : FieldRender ω (Fields ω) := do
  let taken ← fields
  modifyFields fun _ => {}
  return taken

/-- Takes the endings out of the frame. -/
def takeFrame : FieldRender ω (List (Ending ω)) := do
  let taken := (← fields).frame
  modifyFields fun fields => { fields with frame := [] }
  return taken

def takeSkipContent : FieldRender ω Bool := do
  let taken := (← fields).skipContent
  modifyFields fun fields => { fields with skipContent := false }
  return taken

def takeSkipElement : FieldRender ω Bool := do
  let taken := (← fields).skipElement
  modifyFields fun fields => { fields with skipElement := false }
  return taken

/-- Registers an ending. -/
def addEnding (ending : Ending ω) : FieldRender ω Unit :=
  modifyFields fun fields => { fields with frame := fields.frame ++ [ending] }

/-- Asks to drop the content of the wrapper or element at hand. -/
def skipContent : FieldRender ω Unit :=
  modifyFields fun fields => { fields with skipContent := true }

/-- Asks to drop the element at hand. -/
def skipElement : FieldRender ω Unit :=
  modifyFields fun fields => { fields with skipElement := true }

end FieldRender

/-- The computation, which neither reads nor changes the fields. -/
def Render.besideFields (x : Render ω α) : FieldRender ω α := fun s =>
  (x s.bare).map fun p => (p.1, p.2.within s.world.fields)

/-- A part of the fields that may hold a scope. -/
structure ScopePart (ω σ : Type) where
  get : Fields ω → σ
  put : Fields ω → σ → Fields ω
  get_put (fields : Fields ω) (scope : σ) : get (put fields scope) = scope
  put_get (fields : Fields ω) : put fields (get fields) = fields
  put_put (fields : Fields ω) (scope scope' : σ) :
    put (put fields scope) scope' = put fields scope'

/-- The computation, with its scope in a part of the fields. -/
def ScopePart.onFields {σ : Type} (part : ScopePart ω σ) (x : StateT σ (Render ω) α) :
    FieldRender ω α := fun s =>
  (x.run (part.get s.world.fields) s.bare).map fun p =>
    (p.1.1, p.2.within (part.put s.world.fields p.1.2))

/-- The frame and the flag for the content. A scope has its last ending first. -/
def WrapperScope.part : ScopePart ω (WrapperScope ω) where
  get fields := { endings := fields.frame.reverse, skipContent := fields.skipContent }
  put fields scope :=
    { fields with frame := scope.endings.reverse, skipContent := scope.skipContent }
  get_put _ _ := by rw [List.reverse_reverse]
  put_get _ := by rw [List.reverse_reverse]
  put_put _ _ _ := rfl

/-- The two flags. -/
def AttributeScope.part : ScopePart ω AttributeScope where
  get fields := { skipContent := fields.skipContent, skipElement := fields.skipElement }
  put fields scope :=
    { fields with skipContent := scope.skipContent, skipElement := scope.skipElement }
  get_put _ _ := rfl
  put_get _ := rfl
  put_put _ _ _ := rfl

/-- The callback of a wrapper start, with its scope in the fields. -/
def WrapperRender.onFields (x : WrapperRender ω α) : FieldRender ω α :=
  WrapperScope.part.onFields x

/-- The callback of an attribute marker, with its scope in the fields. -/
def AttributeRender.onFields (x : AttributeRender ω α) : FieldRender ω α :=
  AttributeScope.part.onFields x

/-- What runs on the fields for an ending. -/
abbrev EndingCode (ω : Type) : Type := Ending ω → FieldRender ω Unit

/-- What runs on the fields at each marker of a template. -/
abbrev MarkerCode (ω δ : Type) : Type := Nat → δ → FieldRender ω Unit

/-! ## 2. Rendering on the fields -/

namespace Component

open FieldRender

variable (code : EndingCode ω) (calls : MarkerCode ω δ)

/-- Closes the innermost open wrapper: runs its endings. -/
def closeWrapperOnFields (cur : Cursor ω) : FieldRender ω (Next ω) :=
  match cur.depth with
  | 0 => throw .nothingOpen
  | depth + 1 => do
    let frame ← (cur.frame depth).besideFields
    runEndings (frame.map code)
    (proceed
      { cur.next with depth := depth, stack := cur.stack.setFrame depth [] }).besideFields

/-- Drops the content of the wrapper just opened. -/
def dropContentOnFields (c : Component ω δ) (cur : Cursor ω) (closing? : Option Nat) :
    FieldRender ω (Next ω) :=
  match closing? with
  | none => throw (.unpairedStart cur.marker)
  | some index => do
    let m ← (c.template.marker index).besideFields
    if c.exit.marker ≤ index then
      (c.swallow cur { marker := index, offset := m.position }).besideFields
    else closeWrapperOnFields code { cur with marker := index, offset := m.position }

/-- Runs the callback of a plain marker. -/
def runPlainOnFields (data : δ) (cur : Cursor ω) : FieldRender ω (Next ω) := do
  calls cur.marker data
  (proceed cur.next).besideFields

/-- Runs the callback of an attribute marker of the element `e`, and takes the flags that it
leaves unless it has halted the response. -/
def runAttributesOnFields (c : Component ω δ) (data : δ) (cur : Cursor ω) (e : Element) :
    FieldRender ω (Next ω) := do
  calls cur.marker data
  if ← Render.isHalted then return .stop .halted cur.stack
  let drops ← takeSkipContent
  if ← takeSkipElement then (c.dropElement cur e).besideFields
  else if drops then return .goto (c.planJump cur e)
  else return .goto cur.next

/-- Runs the callback of a wrapper start. Its frame is moved from the stack to the fields and
back. -/
def runWrapperStartOnFields (c : Component ω δ) (data : δ) (cur : Cursor ω)
    (closing? : Option Nat) : FieldRender ω (Next ω) := do
  let frame ← (cur.frame cur.depth).besideFields
  modifyFields fun fields => { fields with frame := frame.reverse }
  calls cur.marker data
  let stack := cur.stack.setFrame cur.depth (← takeFrame).reverse
  let cur := { cur with depth := cur.depth + 1, stack := stack }
  if ← Render.isHalted then return .stop .halted cur.stack
  if ← takeSkipContent then c.dropContentOnFields code cur closing?
  else return .goto cur.next

/-- Does what the marker `m` says, which the cursor has come to. -/
def actOnFields (c : Component ω δ) (data : δ) (cur : Cursor ω) (m : Marker ω δ) :
    FieldRender ω (Next ω) :=
  match m.action with
  | .plain _ => runPlainOnFields calls data cur
  | .attributes _ index => do
    let e ← (c.template.element index).besideFields
    c.runAttributesOnFields calls data cur e
  | .wrapperStart _ closing? => c.runWrapperStartOnFields code calls data cur closing?
  | .wrapperEnd opening =>
    if c.entry.marker ≤ opening then closeWrapperOnFields code cur else return .goto cur.next

/-- Goes to the next marker and does what it says. -/
def visitOnFields (c : Component ω δ) (data : δ) (cur : Cursor ω) : FieldRender ω (Next ω) := do
  if cur.marker < c.exit.marker then
    let m ← (c.template.marker cur.marker).besideFields
    let cur ← (c.template.passTags m.position cur.elements cur).besideFields
    let cur ← (c.template.advance cur m.position).besideFields
    if ← Render.isHalted then return .stop .halted cur.stack
    c.actOnFields code calls data cur m
  else (c.finish cur).besideFields

/-- One step of a walk. -/
def stepOnFields (c : Component ω δ) (data : δ) (cur : Cursor ω) : FieldRender ω (Next ω) := do
  match cur.jump with
  | none => c.visitOnFields code calls data cur
  | some jump =>
    if jump.start ≤ (← (c.nextPosition cur).besideFields) then
      (c.takeJump cur jump).besideFields
    else c.visitOnFields code calls data cur

/-- Makes steps from the cursor on until the walk ends. -/
def loopOnFields (c : Component ω δ) (data : δ) (cur : Cursor ω) :
    FieldRender ω (Outcome ω × EndingStack (Ending ω)) := do
  match ← c.stepOnFields code calls data cur with
  | .stop outcome stack => return (outcome, stack)
  | .goto cur' =>
    if c.remaining cur' < c.remaining cur then c.loopOnFields data cur'
    else throw (.stuck cur.marker)
termination_by c.remaining cur

/-- Walks the component from a place on, unless the response is halted. The contents of the
fields are taken away before and put back afterwards. -/
def runOnFields (c : Component ω δ) (data : δ) (place : Place) : FieldRender ω (Outcome ω) := do
  if ← Render.isHalted then return .halted
  let saved ← takeFields
  let (outcome, _) ← c.loopOnFields code calls data
    (c.cursorAt place (EndingStack.ofDepth c.maxNesting))
  modifyFields fun _ => saved
  return outcome

/-- Renders the component. -/
def renderOnFields (c : Component ω δ) (data : δ) : FieldRender ω Unit := do
  match ← c.runOnFields code calls data c.entry with
  | .halted => pure ()
  | .finished carried => runEndings (carried.map code)
  | .swallowed _ carried => runEndings (carried.map code)

end Component

namespace Wrapper

variable (code : EndingCode ω) (calls : MarkerCode ω δ)

/-- Renders the part of a wrapper behind its content marker, from a place on. -/
def renderPostOnFields (w : Wrapper ω δ) (data : δ) (place : Place) : FieldRender ω Unit := do
  let _ ← w.postContent.runOnFields code calls data place

/-- Renders a wrapper around the output of `inner`. -/
def renderOnFields (w : Wrapper ω δ) (data : δ) (inner : FieldRender ω Unit) :
    FieldRender ω Unit := do
  match ← w.preContent.runOnFields code calls data w.preContent.entry with
  | .halted => pure ()
  | .finished carried => do
    inner
    runEndings (carried.map code)
    w.renderPostOnFields code calls data w.content
  | .swallowed resume carried => do
    runEndings (carried.map code)
    w.renderPostOnFields code calls data resume

end Wrapper

namespace FieldRender

/-- Registers the part of a wrapper behind its content marker as an ending, and behind it the
endings carried over from the part before. -/
def deferPost (w : Wrapper ω δ) (data : δ) (place : Place) (carried : List (Ending ω)) :
    FieldRender ω Unit :=
  modifyFields fun fields =>
    { fields with frame := fields.frame ++ w.renderPost data place :: carried.reverse }

/-- Wraps the content of the wrapper marker at hand in `w`. -/
def wrap (code : EndingCode ω) (calls : MarkerCode ω δ) (w : Wrapper ω δ) (data : δ) :
    FieldRender ω Unit := do
  match ← w.preContent.runOnFields code calls data w.preContent.entry with
  | .halted => pure ()
  | .finished carried => deferPost w data w.content carried
  | .swallowed resume carried => do
    skipContent
    deferPost w data resume carried

end FieldRender

/-! ## 3. Callbacks on the fields -/

mutual

/-- A computation, and the same one on the fields. -/
inductive Render.RunsAs (code : EndingCode ω) : {α : Type} → Render ω α → FieldRender ω α → Prop
  /-- The response and the world are read and changed, and something is returned. -/
  | call {α : Type} (f : Session ω → α × Session ω) :
      Render.RunsAs code (fun s => .ok (f s)) fun s =>
        .ok ((f s.bare).1, (f s.bare).2.within s.world.fields)
  /-- A callback gives up by itself. -/
  | overflow {α : Type} :
      Render.RunsAs code (throw .overflow : Render ω α) (throw .overflow)
  | bind {α β : Type} {x : Render ω α} {x' : FieldRender ω α} {f : α → Render ω β}
      {f' : α → FieldRender ω β} : Render.RunsAs code x x' →
      (∀ a, Render.RunsAs code (f a) (f' a)) → Render.RunsAs code (x >>= f) (x' >>= f')
  /-- A component, or a part of a wrapper, is inserted. -/
  | insert {δ : Type} {c : Component ω δ} {calls : MarkerCode ω δ} (data : δ) :
      Template.RunsAs code c.template calls →
      Render.RunsAs code (c.render data) (c.renderOnFields code calls data)
  /-- A wrapper is inserted around a payload. -/
  | insertWrapped {δ : Type} {w : Wrapper ω δ} {calls : MarkerCode ω δ} (data : δ)
      {inner : Render ω Unit} {inner' : FieldRender ω Unit} :
      Template.RunsAs code w.template calls → Render.RunsAs code inner inner' →
      Render.RunsAs code (w.render data inner) (w.renderOnFields code calls data inner')

/-- A computation at a wrapper start, and the same one on the fields. -/
inductive WrapperRender.RunsAs (code : EndingCode ω) :
    {α : Type} → WrapperRender ω α → FieldRender ω α → Prop
  | lift {α : Type} {x : Render ω α} {x' : FieldRender ω α} : Render.RunsAs code x x' →
      WrapperRender.RunsAs code (StateT.lift x) x'
  | bind {α β : Type} {x : WrapperRender ω α} {x' : FieldRender ω α}
      {f : α → WrapperRender ω β} {f' : α → FieldRender ω β} : WrapperRender.RunsAs code x x' →
      (∀ a, WrapperRender.RunsAs code (f a) (f' a)) →
      WrapperRender.RunsAs code (x >>= f) (x' >>= f')
  | addEnding {ending : Ending ω} : Render.RunsAs code ending (code ending) →
      WrapperRender.RunsAs code (WrapperRender.addEnding ending) (FieldRender.addEnding ending)
  | skipContent : WrapperRender.RunsAs code WrapperRender.skipContent FieldRender.skipContent
  /-- The part behind the content marker, which becomes an ending, runs on the fields. -/
  | wrap {δ : Type} {w : Wrapper ω δ} {calls : MarkerCode ω δ} (data : δ) :
      Template.RunsAs code w.template calls →
      (∀ place, code (w.renderPost data place) = w.renderPostOnFields code calls data place) →
      WrapperRender.RunsAs code (WrapperRender.wrap w data) (FieldRender.wrap code calls w data)

/-- A computation in a start tag, and the same one on the fields. -/
inductive AttributeRender.RunsAs (code : EndingCode ω) :
    {α : Type} → AttributeRender ω α → FieldRender ω α → Prop
  | lift {α : Type} {x : Render ω α} {x' : FieldRender ω α} : Render.RunsAs code x x' →
      AttributeRender.RunsAs code (StateT.lift x) x'
  | bind {α β : Type} {x : AttributeRender ω α} {x' : FieldRender ω α}
      {f : α → AttributeRender ω β} {f' : α → FieldRender ω β} :
      AttributeRender.RunsAs code x x' → (∀ a, AttributeRender.RunsAs code (f a) (f' a)) →
      AttributeRender.RunsAs code (x >>= f) (x' >>= f')
  | skipContent : AttributeRender.RunsAs code AttributeRender.skipContent FieldRender.skipContent
  | skipElement : AttributeRender.RunsAs code AttributeRender.skipElement FieldRender.skipElement

/-- A callback, and what runs for it on the fields. -/
inductive Callback.RunsAs (code : EndingCode ω) :
    {δ : Type} → Callback ω δ → (δ → FieldRender ω Unit) → Prop
  | plain {δ : Type} {run : δ → Render ω Unit} {call : δ → FieldRender ω Unit} :
      (∀ data, Render.RunsAs code (run data) (call data)) →
      Callback.RunsAs code (.plain run) call
  | wrapper {δ : Type} {run : δ → WrapperRender ω Unit} {call : δ → FieldRender ω Unit} :
      (∀ data, WrapperRender.RunsAs code (run data) (call data)) →
      Callback.RunsAs code (.wrapper run) call
  | attributes {δ : Type} {run : δ → AttributeRender ω Unit} {call : δ → FieldRender ω Unit} :
      (∀ data, AttributeRender.RunsAs code (run data) (call data)) →
      Callback.RunsAs code (.attributes run) call

/-- A template, and what runs on the fields at its markers. -/
inductive Template.RunsAs (code : EndingCode ω) :
    {δ : Type} → Template ω δ → MarkerCode ω δ → Prop
  | intro {δ : Type} {t : Template ω δ} {calls : MarkerCode ω δ} :
      (∀ (index : Nat) (m : Marker ω δ) (callback : Callback ω δ), t.markers[index]? = some m →
        m.action.callback? = some callback → Callback.RunsAs code callback (calls index)) →
      Template.RunsAs code t calls

end

end HtmlTemplate
