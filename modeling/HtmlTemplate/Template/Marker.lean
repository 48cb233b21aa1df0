import HtmlTemplate.Rendering.Scope
import HtmlTemplate.Template.Name

/-!
# Declarations and markers

The author of a template gives a `Declaration` for every named token, in the
order of the tokens: a callback, if any, and HTML that is put before the place
of the marker. A declaration without a callback leaves no marker behind, only
its HTML.

A `Marker` is what is left of a token in a compiled template. It stands at the
end of its `span`, the literal bytes between it and the marker before.

The parameter `ω` is the world that callbacks see, `δ` the type of the data that
a render is given.
-/

namespace HtmlTemplate

/-- The kinds of markers. -/
inductive MarkerKind where
  /-- A named marker in text or in a quoted value. -/
  | plain
  /-- A named marker between the attributes of a start tag. -/
  | attributes
  | wrapperStart
  | wrapperEnd
  deriving DecidableEq, Repr

/-- The name of a marker kind in messages. -/
def MarkerKind.label : MarkerKind → String
  | plain => "Plain"
  | attributes => "Attributes"
  | wrapperStart => "WrapperStart"
  | wrapperEnd => "WrapperEnd"

/-- The kinds of callbacks. -/
inductive CallbackKind where
  | plain
  | wrapper
  | attributes
  deriving DecidableEq, Repr

/-- The name of a callback kind in messages. -/
def CallbackKind.label : CallbackKind → String
  | plain => "Plain"
  | wrapper => "Wrapper"
  | attributes => "Attributes"

variable {ω δ : Type}

/-- What is run at a marker. -/
inductive Callback (ω δ : Type) where
  | plain (run : δ → Render ω Unit)
  | wrapper (run : δ → WrapperRender ω Unit)
  | attributes (run : δ → AttributeRender ω Unit)

/-- The kind of a callback. -/
def Callback.kind : Callback ω δ → CallbackKind
  | plain _ => .plain
  | wrapper _ => .wrapper
  | attributes _ => .attributes

/-- The declaration of a named marker. -/
structure Declaration (ω δ : Type) where
  name : String
  /-- HTML put right before the place of the marker. -/
  staticText : Option String := none
  callback : Option (Callback ω δ)

namespace Declaration

/-- A marker in text or in a quoted value. -/
def plain (name : String) (run : δ → Render ω Unit) : Declaration ω δ :=
  { name := name, callback := some (.plain run) }

/-- A wrapper marker. -/
def wrapper (name : String) (run : δ → WrapperRender ω Unit) : Declaration ω δ :=
  { name := name, callback := some (.wrapper run) }

/-- A marker between the attributes of a start tag. -/
def attributes (name : String) (run : δ → AttributeRender ω Unit) : Declaration ω δ :=
  { name := name, callback := some (.attributes run) }

/-- A marker of which only the static text is kept. -/
def fixed (name : String) : Declaration ω δ := { name := name, callback := none }

/-- The declaration with HTML put before the marker. -/
def withStatic (d : Declaration ω δ) (html : String) : Declaration ω δ :=
  { d with staticText := some html }

/-- The HTML put before the marker, empty if none is given. -/
def staticHtml (d : Declaration ω δ) : String := d.staticText.getD ""

/-- The declaration on one line, for messages. -/
def describe (d : Declaration ω δ) : String :=
  let callback :=
    match d.callback with
    | none => "None"
    | some callback => "Some(" ++ callback.kind.label ++ ")"
  "MarkerSpec \x7b name: " ++ Name.shown d.name ++ ", static_text: " ++
    Name.shownOptional d.staticText ++ ", callback: " ++ callback ++ " \x7d"

end Declaration

/-- A range of literal bytes. -/
structure Span where
  start : Nat
  stop : Nat
  deriving DecidableEq, Repr

namespace Span

/-- The number of bytes in the range. -/
def size (s : Span) : Nat := s.stop - s.start

/-- Whether the range holds no byte. -/
def isEmpty (s : Span) : Bool := s.size = 0

end Span

/-- What a marker does. Indices are those of the whole template. -/
inductive Action (ω δ : Type) where
  | plain (run : δ → Render ω Unit)
  /-- With the index of the element whose start tag it stands in. -/
  | attributes (run : δ → AttributeRender ω Unit) (element : Nat)
  /-- With the index of its wrapper end, once that is known. -/
  | wrapperStart (run : δ → WrapperRender ω Unit) (closing : Option Nat)
  /-- With the index of its wrapper start. -/
  | wrapperEnd (opening : Nat)

/-- The kind of marker that an action makes. -/
def Action.kind : Action ω δ → MarkerKind
  | plain _ => .plain
  | attributes _ _ => .attributes
  | wrapperStart _ _ => .wrapperStart
  | wrapperEnd _ => .wrapperEnd

/-- A marker of a compiled template. -/
structure Marker (ω δ : Type) where
  name : String
  /-- The literal bytes right before the marker. -/
  span : Span
  action : Action ω δ

namespace Marker

/-- The kind of the marker. -/
def kind (m : Marker ω δ) : MarkerKind := m.action.kind

/-- The offset in the literal bytes at which the marker stands. -/
def position (m : Marker ω δ) : Nat := m.span.stop

/-- The index of the wrapper end that closes the marker. -/
def closing? (m : Marker ω δ) : Option Nat :=
  match m.action with
  | .wrapperStart _ closing => closing
  | _ => none

/-- The index of the wrapper start that the marker closes. -/
def opening? (m : Marker ω δ) : Option Nat :=
  match m.action with
  | .wrapperEnd opening => some opening
  | _ => none

/-- The marker with its wrapper end known, if it is a wrapper start. -/
def closedBy (m : Marker ω δ) (index : Nat) : Marker ω δ :=
  match m.action with
  | .wrapperStart run _ => { m with action := .wrapperStart run (some index) }
  | _ => m

@[simp] theorem name_closedBy (m : Marker ω δ) (index : Nat) :
    (m.closedBy index).name = m.name := by
  unfold closedBy; split <;> rfl

@[simp] theorem span_closedBy (m : Marker ω δ) (index : Nat) :
    (m.closedBy index).span = m.span := by
  unfold closedBy; split <;> rfl

@[simp] theorem position_closedBy (m : Marker ω δ) (index : Nat) :
    (m.closedBy index).position = m.position := by
  simp [position]

@[simp] theorem kind_closedBy (m : Marker ω δ) (index : Nat) :
    (m.closedBy index).kind = m.kind := by
  unfold closedBy
  split
  · next h => simp [kind, h, Action.kind]
  · rfl

/-- The marker on one line, for messages. -/
def describe (m : Marker ω δ) : String :=
  "Marker \x7b name: " ++ Name.shown m.name ++ ", kind: " ++ m.kind.label ++
    ", prefix: Span \x7b start: " ++ toString m.span.start ++ ", len: " ++ toString m.span.size ++
    " \x7d \x7d"

end Marker

end HtmlTemplate
