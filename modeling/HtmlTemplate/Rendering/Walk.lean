import HtmlTemplate.Rendering.EndingStack
import HtmlTemplate.Template.Basic

/-!
# Walking a component

A component is rendered by a walk over its markers in order. The walk copies the
literal bytes between markers and runs a callback at each marker. A `Cursor`
says how far it has come.

* At a plain marker the callback is run.
* At an attribute marker the callback may ask to drop its element: the output is
  cut back to where the start tag began, and the walk goes on behind the end tag.
  Or it may ask to drop the content of the element: the walk goes on to the end
  of the start tag, and jumps from there to the end tag.
* At a wrapper start the callback may register endings, or ask to drop the
  content of the wrapper: the walk goes on at its end.
* At a wrapper end the endings are run.

The part of a wrapper before its content marker may leave wrappers open; their
endings are handed to the caller. If something is dropped that holds the content
marker, the walk ends there, and the caller goes on at the place behind it.

The walk stops when the response is halted. `walk` makes steps as long as each
one moves the cursor forward (`remaining`), which all steps do in a compiled
template.
-/

namespace HtmlTemplate

variable {ω δ : Type}

/-! ## 1. The state of a walk -/

/-- How a walk ends. -/
inductive Outcome (ω : Type) where
  /-- At the end of the component, with the endings of wrappers still open. -/
  | finished (carried : List (Ending ω))
  | halted
  /-- Something was dropped that holds the content marker. Rendering goes on at
  `resume`, in the part behind the content marker. -/
  | swallowed (resume : Place) (carried : List (Ending ω))

/-- A jump that is taken when the walk comes to the offset `start`. -/
structure Jump where
  start : Nat
  target : Place
  /-- Whether the content marker is jumped over. -/
  swallows : Bool
  deriving DecidableEq, Repr

/-- The size of the output when the `<` at the offset `start` was reached. -/
structure TagMark where
  start : Nat
  size : Nat
  deriving DecidableEq, Repr

/-- How far a walk has come. -/
structure Cursor (ω : Type) where
  /-- The index of the next marker. -/
  marker : Nat
  /-- The offset up to which literal bytes are written or dropped. -/
  offset : Nat
  /-- The number of open wrappers. -/
  depth : Nat := 0
  jump : Option Jump := none
  /-- The last start tag with attribute markers. -/
  tagMark : Option TagMark := none
  /-- The elements whose start tags have not been reached. -/
  elements : List Element
  stack : EndingStack (Ending ω)

namespace Cursor

/-- Behind the marker at which the cursor stands. -/
def next (cur : Cursor ω) : Cursor ω := { cur with marker := cur.marker + 1 }

/-- At another place. A jump that has not been taken is forgotten. -/
def moveTo (cur : Cursor ω) (place : Place) : Cursor ω :=
  { cur with marker := place.marker, offset := place.offset, jump := none }

end Cursor

/-- What follows a step: another one, or the end of the walk. -/
inductive Next (ω : Type) where
  | goto (cur : Cursor ω)
  | stop (outcome : Outcome ω) (stack : EndingStack (Ending ω))

/-! ## 2. Literal bytes, markers and elements -/

namespace Template

/-- Writes the literal bytes from `start` to `stop`. -/
def writeLiteral (t : Template ω δ) (start stop : Nat) : Render ω Unit :=
  if start ≤ stop ∧ stop ≤ t.html.size then Render.writeRawBytes (t.html.extract start stop)
  else throw (.noLiteral start stop t.html.size)

/-- The marker with this index. -/
def marker (t : Template ω δ) (index : Nat) : Render ω (Marker ω δ) :=
  match t.markers[index]? with
  | some m => pure m
  | none => throw (.noMarker index)

/-- The element with this index. -/
def element (t : Template ω δ) (index : Nat) : Render ω Element :=
  match t.elements[index]? with
  | some e => pure e
  | none => throw (.noElement index)

/-- Writes literal bytes up to `stop`. -/
def advance (t : Template ω δ) (cur : Cursor ω) (stop : Nat) : Render ω (Cursor ω) := do
  t.writeLiteral cur.offset stop
  return { cur with offset := stop }

/-- Passes the start tags of the given elements that begin before `limit`, and
marks the size of the output at each. Start tags that were jumped over are not
marked. -/
def passTags (t : Template ω δ) (limit : Nat) :
    List Element → Cursor ω → Render ω (Cursor ω)
  | [], cur => return { cur with elements := [] }
  | e :: rest, cur =>
    if e.openStart < limit then
      if cur.offset ≤ e.openStart then do
        let cur ← t.advance cur e.openStart
        let mark : TagMark := { start := e.openStart, size := ← Render.outputSize }
        t.passTags limit rest { cur with tagMark := some mark }
      else t.passTags limit rest cur
    else return { cur with elements := e :: rest }

end Template

/-- The frame for the next wrapper, or for the one closed next. -/
def Cursor.frame (cur : Cursor ω) (depth : Nat) : Render ω (List (Ending ω)) :=
  match cur.stack.frame? depth with
  | some frame => pure frame
  | none => throw (.noFrame depth)

namespace Component

/-! ## 3. Steps -/

/-- The endings of the wrappers that are still open, which are taken off the
stack. Only a part before a content marker may end with open wrappers. -/
def handOver (c : Component ω δ) (cur : Cursor ω) :
    Render ω (List (Ending ω) × EndingStack (Ending ω)) :=
  if cur.depth = 0 then pure ([], cur.stack)
  else if c.part = .preContent then
    pure (cur.stack.openEndings cur.depth, cur.stack.clearOpen cur.depth)
  else throw (.endingsLeft cur.depth)

/-- Ends the walk because the content marker has been dropped. -/
def swallow (c : Component ω δ) (cur : Cursor ω) (resume : Place) : Render ω (Next ω) := do
  let (carried, stack) ← c.handOver cur
  return .stop (.swallowed resume carried) stack

/-- Goes on with the cursor, unless the response is halted. -/
def proceed (cur : Cursor ω) : Render ω (Next ω) := do
  if ← Render.isHalted then return .stop .halted cur.stack else return .goto cur

/-- Ends the walk at the end of the component. -/
def finish (c : Component ω δ) (cur : Cursor ω) : Render ω (Next ω) := do
  let cur ← c.template.advance cur c.exit.offset
  if ← Render.isHalted then return .stop .halted cur.stack
  let (carried, stack) ← c.handOver cur
  return .stop (.finished carried) stack

/-- Takes a jump. -/
def takeJump (c : Component ω δ) (cur : Cursor ω) (jump : Jump) : Render ω (Next ω) := do
  let cur ← c.template.advance cur jump.start
  if jump.swallows then c.swallow cur jump.target else return .goto (cur.moveTo jump.target)

/-- Closes the innermost open wrapper: runs its endings. -/
def closeWrapper (cur : Cursor ω) : Render ω (Next ω) :=
  match cur.depth with
  | 0 => throw .nothingOpen
  | depth + 1 => do
    let frame ← cur.frame depth
    runEndings frame
    proceed { cur.next with depth := depth, stack := cur.stack.setFrame depth [] }

/-- Drops the content of the wrapper just opened, whose end has the index
`closing?`. -/
def dropContent (c : Component ω δ) (cur : Cursor ω) (closing? : Option Nat) :
    Render ω (Next ω) :=
  match closing? with
  | none => throw (.unpairedStart cur.marker)
  | some index => do
    let m ← c.template.marker index
    if c.exit.marker ≤ index then c.swallow cur { marker := index, offset := m.position }
    else closeWrapper { cur with marker := index, offset := m.position }

/-- Drops the element in whose start tag the cursor stands. -/
def dropElement (c : Component ω δ) (cur : Cursor ω) (e : Element) : Render ω (Next ω) := do
  let size ←
    match cur.tagMark with
    | some mark => if mark.start = e.openStart then pure mark.size else Render.outputSize
    | none => Render.outputSize
  Render.modifyResponse (·.truncate size)
  let target : Place := { marker := e.nextMarker, offset := e.closeEnd }
  if c.part = .preContent ∧ e.containsContent then c.swallow cur target
  else return .goto (cur.moveTo target)

/-- The cursor behind an attribute marker whose callback asked to drop the
content of its element. -/
def planJump (c : Component ω δ) (cur : Cursor ω) (e : Element) : Cursor ω :=
  if e.hasContent then
    { cur.next with
      jump := some
        { start := e.openEnd
          target := { marker := e.nextMarker, offset := e.closeStart }
          swallows := c.part = .preContent && e.containsContent } }
  else cur.next

/-- Runs the callback of a plain marker. -/
def runPlain (cur : Cursor ω) (run : Render ω Unit) : Render ω (Next ω) := do
  run
  proceed cur.next

/-- Runs the callback of an attribute marker of the element `e`. -/
def runAttributes (c : Component ω δ) (cur : Cursor ω) (run : AttributeRender ω Unit)
    (e : Element) : Render ω (Next ω) := do
  let (_, scope) ← run.run {}
  if ← Render.isHalted then return .stop .halted cur.stack
  if scope.skipElement then c.dropElement cur e
  else if scope.skipContent then return .goto (c.planJump cur e)
  else return .goto cur.next

/-- Runs the callback of a wrapper start, for which a frame is taken. -/
def runWrapperStart (c : Component ω δ) (cur : Cursor ω) (run : WrapperRender ω Unit)
    (closing? : Option Nat) : Render ω (Next ω) := do
  let frame ← cur.frame cur.depth
  let (_, scope) ← run.run { endings := frame }
  let stack := cur.stack.setFrame cur.depth scope.endings
  let cur := { cur with depth := cur.depth + 1, stack := stack }
  if ← Render.isHalted then return .stop .halted cur.stack
  if scope.skipContent then c.dropContent cur closing?
  else return .goto cur.next

/-- Does what the marker `m` says, which the cursor has come to. -/
def act (c : Component ω δ) (data : δ) (cur : Cursor ω) (m : Marker ω δ) : Render ω (Next ω) :=
  match m.action with
  | .plain run => runPlain cur (run data)
  | .attributes run index => do
    let e ← c.template.element index
    c.runAttributes cur (run data) e
  | .wrapperStart run closing? => c.runWrapperStart cur (run data) closing?
  | .wrapperEnd opening =>
    -- A wrapper opened in the part before was handed over there.
    if c.entry.marker ≤ opening then closeWrapper cur else return .goto cur.next

/-- Goes to the next marker and does what it says. -/
def visit (c : Component ω δ) (data : δ) (cur : Cursor ω) : Render ω (Next ω) := do
  if cur.marker < c.exit.marker then
    let m ← c.template.marker cur.marker
    let cur ← c.template.passTags m.position cur.elements cur
    let cur ← c.template.advance cur m.position
    if ← Render.isHalted then return .stop .halted cur.stack
    c.act data cur m
  else c.finish cur

/-- The position of the next marker, or of the end of the component. -/
def nextPosition (c : Component ω δ) (cur : Cursor ω) : Render ω Nat := do
  if cur.marker < c.exit.marker then return (← c.template.marker cur.marker).position
  else return c.exit.offset

/-- One step: a jump whose start is not behind the next marker, or the marker. -/
def step (c : Component ω δ) (data : δ) (cur : Cursor ω) : Render ω (Next ω) := do
  match cur.jump with
  | none => c.visit data cur
  | some jump =>
    if jump.start ≤ (← c.nextPosition cur) then c.takeJump cur jump else c.visit data cur

/-! ## 4. Walks -/

/-- A bound on the number of steps from the cursor on. -/
def remaining (c : Component ω δ) (cur : Cursor ω) : Nat :=
  2 * (c.exit.marker - cur.marker) + if cur.jump.isSome then 1 else 0

/-- Makes steps from the cursor on until the walk ends. -/
def loop (c : Component ω δ) (data : δ) (cur : Cursor ω) :
    Render ω (Outcome ω × EndingStack (Ending ω)) := do
  match ← c.step data cur with
  | .stop outcome stack => return (outcome, stack)
  | .goto cur' =>
    if c.remaining cur' < c.remaining cur then c.loop data cur' else throw (.stuck cur.marker)
termination_by c.remaining cur

/-- The cursor at a place, before any wrapper is opened. -/
def cursorAt (c : Component ω δ) (place : Place) (stack : EndingStack (Ending ω)) : Cursor ω :=
  { marker := place.marker
    offset := place.offset
    elements := c.template.elements.toList.dropWhile fun e => e.openStart < place.offset
    stack := stack }

/-- Walks the component from a place on, with the frames of the given stack. -/
def walk (c : Component ω δ) (data : δ) (place : Place) (stack : EndingStack (Ending ω)) :
    Render ω (Outcome ω × EndingStack (Ending ω)) :=
  c.loop data (c.cursorAt place stack)

/-- Walks the component from a place on, unless the response is halted. -/
def run (c : Component ω δ) (data : δ) (place : Place) : Render ω (Outcome ω) := do
  if ← Render.isHalted then return .halted
  return (← c.walk data place (EndingStack.ofDepth c.maxNesting)).1

/-- Renders the component. The endings of wrappers left open by a part before a
content marker run at its end. -/
def render (c : Component ω δ) (data : δ) : Render ω Unit := do
  match ← c.run data c.entry with
  | .halted => pure ()
  | .finished carried => runEndings carried
  | .swallowed _ carried => runEndings carried

end Component

/-! ## 5. Wrappers -/

/-- Renders the part of a wrapper behind its content marker, from a place on. -/
def Wrapper.renderPost (w : Wrapper ω δ) (data : δ) (place : Place) : Render ω Unit := do
  let _ ← w.postContent.run data place

/-- Renders a wrapper around the output of `inner`. The endings of wrappers that
the content marker stands in run right after `inner`. If something is dropped
that holds the content marker, `inner` is dropped too. -/
def Wrapper.render (w : Wrapper ω δ) (data : δ) (inner : Render ω Unit) : Render ω Unit := do
  match ← w.preContent.run data w.preContent.entry with
  | .halted => pure ()
  | .finished carried => do
    inner
    runEndings carried
    w.renderPost data w.content
  | .swallowed resume carried => do
    runEndings carried
    w.renderPost data resume

namespace WrapperRender

/-- Registers the part of a wrapper behind its content marker as an ending, and
the endings carried over from the part before it, which run earlier. -/
def deferPost (w : Wrapper ω δ) (data : δ) (place : Place) (carried : List (Ending ω)) :
    WrapperRender ω Unit :=
  modify fun scope =>
    { scope with endings := carried ++ w.renderPost data place :: scope.endings }

/-- Wraps the content of the wrapper marker at hand in `w`. The part of `w`
before its content marker is rendered now, the part behind it at the wrapper
end. -/
def wrap (w : Wrapper ω δ) (data : δ) : WrapperRender ω Unit := do
  match ← StateT.lift (w.preContent.run data w.preContent.entry) with
  | .halted => pure ()
  | .finished carried => deferPost w data w.content carried
  | .swallowed resume carried => do
    skipContent
    deferPost w data resume carried

end WrapperRender

end HtmlTemplate
