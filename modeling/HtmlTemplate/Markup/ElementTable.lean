import HtmlTemplate.Markup.Element

/-!
# The table of elements that carry attribute markers

An `ElementTable` is filled while literal bytes are read. An element is entered
into it when the first attribute marker in its start tag is met (`attach`). It
then waits for its end tag in the list `pending`. Each entry of that list counts
the elements of the same name that were opened after it and are still open, so
that their end tags are not taken for its own.

Wrappers may not cross the tags of these elements. `closeTag` finds an element
whose end tag is at another wrapper depth than its start tag, and `crossedAt?`
one that a wrapper end leaves open.
-/

namespace HtmlTemplate

/-- What has been compiled when a byte is read. -/
structure Surroundings where
  /-- The number of markers so far. -/
  markers : Nat
  /-- The number of open wrappers. -/
  depth : Nat
  deriving DecidableEq, Repr

/-- An element that waits for its end tag. -/
structure OpenElement where
  /-- Its index in the table. -/
  element : Nat
  name : TagName
  /-- The wrapper depth at its start tag. -/
  depth : Nat
  /-- How many elements of its name have been opened after it and not closed. -/
  nested : Nat := 0
  deriving DecidableEq

/-- What an end tag does to the pending elements. -/
structure EndTagEffect where
  /-- The elements that are still pending. -/
  pending : List OpenElement
  /-- The elements that it closes. -/
  closed : List Nat := []
  /-- An element that it would close at the wrong wrapper depth. -/
  crossed : Option Nat := none

namespace OpenElement

/-- The pending elements after a start tag of the given name. -/
def countOpening (name : TagName) (pending : List OpenElement) : List OpenElement :=
  pending.map fun p => if p.name = name then { p with nested := p.nested + 1 } else p

/-- The effect of an end tag with the given name at the given wrapper depth. It
closes the elements of its name after which no other element of that name is
open. Elements after a crossed one are not looked at. -/
def closeAll (name : TagName) (depth : Nat) : List OpenElement → EndTagEffect
  | [] => { pending := [] }
  | p :: rest =>
    if p.name ≠ name then
      let effect := closeAll name depth rest
      { effect with pending := p :: effect.pending }
    else if 0 < p.nested then
      let effect := closeAll name depth rest
      { effect with pending := { p with nested := p.nested - 1 } :: effect.pending }
    else if p.depth ≠ depth then
      { pending := rest, crossed := some p.element }
    else
      let effect := closeAll name depth rest
      { effect with closed := p.element :: effect.closed }

end OpenElement

structure ElementTable where
  /-- The element of the start tag being read, if it carries attribute markers. -/
  current : Option Nat := none
  pending : List OpenElement := []
  /-- The elements in the order of their start tags. -/
  elements : Array Element := #[]
  deriving DecidableEq

namespace ElementTable

/-- The text of the name of the element with this index. -/
def nameText (t : ElementTable) (index : Nat) : String :=
  (t.elements[index]?.map Element.nameText).getD ""

/-- An attribute marker stands in the start tag with the given name and start:
the index of the element, which is entered into the table if it is new. -/
def attach (t : ElementTable) (name : TagName) (start : Nat) : ElementTable × Nat :=
  match t.current with
  | some index => (t, index)
  | none =>
    let index := t.elements.size
    ({ t with
        elements := t.elements.push { name := name, openStart := start }
        current := some index }, index)

/-- The content marker stands at the current place, inside all pending elements. -/
def markContent (t : ElementTable) : ElementTable :=
  { t with
    elements := t.pending.foldl
      (fun elements p => elements.modify p.element fun e => { e with containsContent := true })
      t.elements }

/-- A start tag ends. If it carries attribute markers, its element is closed here
or waits for its end tag. -/
def openTag (t : ElementTable) (around : Surroundings) (name : TagName) (selfClosing : Bool)
    (stop : Nat) : ElementTable :=
  let closesItself := selfClosing || Markup.isVoid name
  let counted := if closesItself then t.pending else OpenElement.countOpening name t.pending
  match t.current with
  | none => { t with pending := counted }
  | some index =>
    if closesItself then
      { current := none
        pending := counted
        elements := t.elements.modify index fun e =>
          (e.endOpen stop around.markers).endClose stop stop around.markers }
    else
      { current := none
        pending := counted ++ [{ element := index, name := name, depth := around.depth }]
        elements := t.elements.modify index fun e => e.endOpen stop around.markers }

/-- An end tag ends. The second component names an element that it would close
at the wrong wrapper depth. -/
def closeTag (t : ElementTable) (around : Surroundings) (name : TagName) (start stop : Nat) :
    ElementTable × Option String :=
  let effect := OpenElement.closeAll name around.depth t.pending
  let elements := effect.closed.foldl
    (fun elements index =>
      elements.modify index fun e => e.endClose start stop around.markers)
    t.elements
  ({ t with pending := effect.pending, elements := elements }, effect.crossed.map t.nameText)

/-- Takes notice of a tag. -/
def addTag (t : ElementTable) (around : Surroundings) : Tag → ElementTable × Option String
  | .opening name selfClosing stop => (t.openTag around name selfClosing stop, none)
  | .closing name start stop => t.closeTag around name start stop

/-- The first pending element that was opened at a greater wrapper depth than
`depth`, to which a wrapper end has led. -/
def crossedAt? (t : ElementTable) (depth : Nat) : Option String :=
  (t.pending.find? fun p => depth < p.depth).map fun p => t.nameText p.element

/-- An element that is not closed: one that is pending, or one in whose start
tag the bytes end. -/
def unclosed? (t : ElementTable) (insideTag : Bool) : Option String :=
  match t.pending with
  | p :: _ => some (t.nameText p.element)
  | [] => if insideTag then t.current.map t.nameText else none

end ElementTable

end HtmlTemplate
