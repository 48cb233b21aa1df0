import HtmlTemplate.Template.Marker
import HtmlTemplate.Markup.Element

/-!
# Compiled templates

A `Template` is everything that is compiled from one source: the literal bytes,
the markers in the order of their positions, and the elements that carry
attribute markers. A `Component` is the range of a template that is rendered in
one go: the whole of it, or the part before or after the content marker of a
`Wrapper`.
-/

namespace HtmlTemplate

variable {ω δ : Type}

structure Template (ω δ : Type) where
  /-- The literal bytes. -/
  html : ByteArray
  markers : Array (Marker ω δ)
  elements : Array Element

/-- A place in a template: the index of the first marker behind it and its
offset in the literal bytes. -/
structure Place where
  marker : Nat
  offset : Nat
  deriving DecidableEq, Repr

namespace Template

/-- The place before everything. -/
def start (_ : Template ω δ) : Place := { marker := 0, offset := 0 }

/-- The place behind everything. -/
def stop (t : Template ω δ) : Place := { marker := t.markers.size, offset := t.html.size }

end Template

/-- Which part of its template a component is. -/
inductive Part where
  | whole
  /-- The part of a wrapper before its content marker. -/
  | preContent
  /-- The part of a wrapper after its content marker. -/
  | postContent
  deriving DecidableEq, Repr

structure Component (ω δ : Type) where
  template : Template ω δ
  part : Part
  /-- The place at which rendering starts. -/
  entry : Place
  /-- The place at which rendering ends. -/
  exit : Place
  /-- The greatest number of wrapper markers of the template that are open at a
  time. -/
  maxNesting : Nat

namespace Component

/-- The markers of the component. -/
def markers (c : Component ω δ) : Array (Marker ω δ) :=
  c.template.markers.extract c.entry.marker c.exit.marker

/-- The literal bytes of the component. -/
def html (c : Component ω δ) : ByteArray := c.template.html.extract c.entry.offset c.exit.offset

/-- The literal bytes after the last marker of the component. -/
def htmlTail (c : Component ω δ) : ByteArray :=
  let start := (c.markers.back?.map Marker.position).getD c.entry.offset
  c.template.html.extract start c.exit.offset

end Component

/-- A template with a content marker. -/
structure Wrapper (ω δ : Type) where
  template : Template ω δ
  /-- The place of the content marker. -/
  content : Place
  maxNesting : Nat

namespace Wrapper

/-- The part before the content marker. -/
def preContent (w : Wrapper ω δ) : Component ω δ :=
  { template := w.template, part := .preContent, entry := w.template.start, exit := w.content,
    maxNesting := w.maxNesting }

/-- The part after the content marker. -/
def postContent (w : Wrapper ω δ) : Component ω δ :=
  { template := w.template, part := .postContent, entry := w.content, exit := w.template.stop,
    maxNesting := w.maxNesting }

end Wrapper

end HtmlTemplate
