import HtmlTemplate.Proofs.Rendering.Calls
import HtmlTemplate.Rendering.Walk
import HtmlTemplate.Template.Assembly

/-!
# A journal of a render

An ending is a computation like any other, and whether it has run cannot be seen from the
outside. Callbacks can keep a journal, though: the world has room for one. `Journals` says
that a callback is made of the functions of the library, as any callback is, and notes in the
journal

* that it has been invoked, or a payload has;
* that it has registered an ending, which gets a `Mark` of its own;
* that the ending with this mark has been invoked;
* that it has made a call on the response.

Each note keeps the response as it is at that moment. The callbacks read the response and the
rest of the world as they like, but not the journal, so that it is of no matter to what they
do.

An ending that is registered with `addEnding` notes its mark first. `wrap` registers the part
of a wrapper behind its content marker as an ending; the last one that it has registered is
made to note its mark as well.
-/

namespace HtmlTemplate

/-! ## 1. Journals -/

/-- An ending: the invocation of the callback that has registered it, and its own number. -/
structure Mark where
  callback : Nat
  number : Nat
  deriving DecidableEq, Repr

/-- What is noted. -/
inductive Event where
  /-- The callback of a marker or a payload is invoked. -/
  | called
  /-- An ending has been registered. -/
  | registered (mark : Mark)
  /-- An ending is invoked. -/
  | ran (mark : Mark)
  /-- A call on the response has been made. -/
  | responded
  deriving DecidableEq, Repr

namespace Event

/-- The ending that has been registered. -/
def registered? : Event → Option Mark
  | .registered mark => some mark
  | _ => none

/-- The ending that is invoked. -/
def ran? : Event → Option Mark
  | .ran mark => some mark
  | _ => none

/-- Whether a callback, a payload or an ending is invoked. -/
def isInvocation : Event → Bool
  | .called | .ran _ => true
  | .registered _ | .responded => false

end Event

/-- A note in a journal, with the response at that moment. -/
structure Entry where
  event : Event
  response : Response

/-- The notes of a render, the first one first, and a number that has not been given away. -/
structure Journal where
  next : Nat := 0
  entries : List Entry := []

/-- A world with a journal in it. -/
structure Journaled (σ : Type) where
  journal : Journal := {}
  world : σ

variable {σ α : Type}

namespace Session

/-- The notes in the journal. -/
def entries (s : Session (Journaled σ)) : List Entry := s.world.journal.entries

/-- The number that is given away next. -/
def next (s : Session (Journaled σ)) : Nat := s.world.journal.next

/-- The note of an event that happens now. -/
def entry (s : Session (Journaled σ)) (event : Event) : Entry :=
  { event := event, response := s.response }

/-- The session with a note of the event. -/
def noting (s : Session (Journaled σ)) (event : Event) : Session (Journaled σ) :=
  { s with world :=
    { s.world with journal := { s.world.journal with entries := s.entries ++ [s.entry event] } } }

/-- The session with a number given away. -/
def counting (s : Session (Journaled σ)) : Session (Journaled σ) :=
  { s with world := { s.world with journal := { s.world.journal with next := s.next + 1 } } }

end Session

/-! ## 2. What callbacks do -/

namespace Render

/-- Makes a note. -/
def note (event : Event) : Render (Journaled σ) Unit := modify (·.noting event)

/-- Takes a number that has not been given away before. -/
def takeNumber : Render (Journaled σ) Nat := do
  let s ← get
  set s.counting
  return s.next

/-- A callback or a payload, which notes that it is invoked. -/
def called (x : Render (Journaled σ) α) : Render (Journaled σ) α := do
  note .called
  x

/-- An ending, which notes that it is invoked. -/
def marked (mark : Mark) (x : Render (Journaled σ) Unit) : Render (Journaled σ) Unit := do
  note (.ran mark)
  x

/-- Reads the response and the world. The world is changed, but not the journal. -/
def consult (f : Response → σ → α × σ) : Render (Journaled σ) α := fun s =>
  let (a, world) := f s.response s.world.world
  .ok (a, { s with world := { s.world with world := world } })

/-- Makes a call on the response, and a note of it. -/
def reply (call : Response.Call) : Render (Journaled σ) Unit := do
  respond call
  note .responded

end Render

namespace WrapperRender

/-- A callback at a wrapper start, which notes that it is invoked. Each invocation gets a
number. -/
def called (x : Nat → WrapperRender (Journaled σ) Unit) : WrapperRender (Journaled σ) Unit := do
  StateT.lift (Render.note .called)
  let callback ← StateT.lift Render.takeNumber
  x callback

/-- A mark for an ending that is registered now. -/
def newMark (callback : Nat) : WrapperRender (Journaled σ) Mark :=
  StateT.lift do
    let number ← Render.takeNumber
    let mark : Mark := { callback := callback, number := number }
    Render.note (.registered mark)
    return mark

/-- Registers an ending under a new mark. -/
def addMarked (callback : Nat) (ending : Render (Journaled σ) Unit) :
    WrapperRender (Journaled σ) Unit := do
  let mark ← newMark callback
  addEnding (Render.marked mark ending)

/-- Puts a new mark on the last one of the first `count` endings. -/
def markLast (callback : Nat) : Nat → WrapperRender (Journaled σ) Unit
  | 0 => pure ()
  | index + 1 => do
    let mark ← newMark callback
    modify fun scope => { scope with endings := scope.endings.modify index (Render.marked mark) }

/-- Wraps the content of the wrapper marker at hand in `w`. The part of `w` behind its content
marker is the last one of the endings that this registers; it gets a new mark. -/
def wrapMarked {δ : Type} (callback : Nat) (w : Wrapper (Journaled σ) δ) (data : δ) :
    WrapperRender (Journaled σ) Unit := do
  let before ← get
  wrap w data
  let scope ← get
  markLast callback (scope.endings.length - before.endings.length)

end WrapperRender

/-- A callback in a start tag, which notes that it is invoked. -/
def AttributeRender.called (x : AttributeRender (Journaled σ) Unit) :
    AttributeRender (Journaled σ) Unit := do
  StateT.lift (Render.note .called)
  x

/-! ## 3. Callbacks that keep a journal -/

mutual

/-- A computation made of the functions for callbacks that keeps the journal. -/
inductive Render.Journals : {α : Type} → Render (Journaled σ) α → Prop
  /-- The response and the world are read, the world is changed, and something is returned. -/
  | consult {α : Type} (f : Response → σ → α × σ) : Render.Journals (Render.consult f)
  | reply (call : Response.Call) : Render.Journals (Render.reply call)
  /-- A callback gives up by itself. -/
  | overflow {α : Type} : Render.Journals (throw .overflow : Render (Journaled σ) α)
  | bind {α β : Type} {x : Render (Journaled σ) α} {f : α → Render (Journaled σ) β} :
      Render.Journals x → (∀ a, Render.Journals (f a)) → Render.Journals (x >>= f)
  /-- A component is inserted. -/
  | insert {δ : Type} {source : String} {declarations : List (Declaration (Journaled σ) δ)}
      {c : Component (Journaled σ) δ} (data : δ) :
      Component.compile source declarations = .ok c →
      (∀ d ∈ declarations, Declaration.Journals d) → Render.Journals (c.render data)
  /-- The part of a wrapper before its content marker is inserted. -/
  | insertBefore {δ : Type} {source : String} {declarations : List (Declaration (Journaled σ) δ)}
      {w : Wrapper (Journaled σ) δ} (data : δ) : Wrapper.compile source declarations = .ok w →
      (∀ d ∈ declarations, Declaration.Journals d) → Render.Journals (w.preContent.render data)
  /-- The part of a wrapper behind its content marker is inserted. -/
  | insertBehind {δ : Type} {source : String} {declarations : List (Declaration (Journaled σ) δ)}
      {w : Wrapper (Journaled σ) δ} (data : δ) : Wrapper.compile source declarations = .ok w →
      (∀ d ∈ declarations, Declaration.Journals d) → Render.Journals (w.postContent.render data)
  /-- A wrapper is inserted around a payload. -/
  | insertWrapped {δ : Type} {source : String} {declarations : List (Declaration (Journaled σ) δ)}
      {w : Wrapper (Journaled σ) δ} (data : δ) {payload : Render (Journaled σ) Unit} :
      Wrapper.compile source declarations = .ok w → (∀ d ∈ declarations, Declaration.Journals d) →
      Render.Journals payload → Render.Journals (w.render data (Render.called payload))

/-- A computation at a wrapper start made of the functions for callbacks that keeps the
journal. -/
inductive WrapperRender.Journals :
    (callback : Nat) → {α : Type} → WrapperRender (Journaled σ) α → Prop
  | lift {callback : Nat} {α : Type} {x : Render (Journaled σ) α} :
      Render.Journals x → WrapperRender.Journals callback (StateT.lift x)
  | bind {callback : Nat} {α β : Type} {x : WrapperRender (Journaled σ) α}
      {f : α → WrapperRender (Journaled σ) β} : WrapperRender.Journals callback x →
      (∀ a, WrapperRender.Journals callback (f a)) → WrapperRender.Journals callback (x >>= f)
  | addEnding {callback : Nat} {ending : Render (Journaled σ) Unit} : Render.Journals ending →
      WrapperRender.Journals callback (WrapperRender.addMarked callback ending)
  | skipContent {callback : Nat} :
      WrapperRender.Journals callback WrapperRender.skipContent
  | wrap {callback : Nat} {δ : Type} {source : String}
      {declarations : List (Declaration (Journaled σ) δ)} {w : Wrapper (Journaled σ) δ}
      (data : δ) : Wrapper.compile source declarations = .ok w →
      (∀ d ∈ declarations, Declaration.Journals d) →
      WrapperRender.Journals callback (WrapperRender.wrapMarked callback w data)

/-- A computation in a start tag made of the functions for callbacks that keeps the journal. -/
inductive AttributeRender.Journals : {α : Type} → AttributeRender (Journaled σ) α → Prop
  | lift {α : Type} {x : Render (Journaled σ) α} :
      Render.Journals x → AttributeRender.Journals (StateT.lift x)
  | bind {α β : Type} {x : AttributeRender (Journaled σ) α}
      {f : α → AttributeRender (Journaled σ) β} : AttributeRender.Journals x →
      (∀ a, AttributeRender.Journals (f a)) → AttributeRender.Journals (x >>= f)
  | skipContent : AttributeRender.Journals AttributeRender.skipContent
  | skipElement : AttributeRender.Journals AttributeRender.skipElement

/-- A declaration whose callback, if there is one, notes that it is invoked, and keeps the
journal. -/
inductive Declaration.Journals : {δ : Type} → Declaration (Journaled σ) δ → Prop
  | fixed {δ : Type} {d : Declaration (Journaled σ) δ} :
      d.callback = none → Declaration.Journals d
  | plain {δ : Type} {d : Declaration (Journaled σ) δ} {run : δ → Render (Journaled σ) Unit} :
      d.callback = some (.plain fun data => Render.called (run data)) →
      (∀ data, Render.Journals (run data)) → Declaration.Journals d
  | wrapper {δ : Type} {d : Declaration (Journaled σ) δ}
      {run : δ → Nat → WrapperRender (Journaled σ) Unit} :
      d.callback = some (.wrapper fun data => WrapperRender.called (run data)) →
      (∀ data callback, WrapperRender.Journals callback (run data callback)) →
      Declaration.Journals d
  | attributes {δ : Type} {d : Declaration (Journaled σ) δ}
      {run : δ → AttributeRender (Journaled σ) Unit} :
      d.callback = some (.attributes fun data => AttributeRender.called (run data)) →
      (∀ data, AttributeRender.Journals (run data)) → Declaration.Journals d

end

end HtmlTemplate
