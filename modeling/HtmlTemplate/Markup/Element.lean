import HtmlTemplate.Markup.Tag

/-!
# Elements that carry attribute markers

An `Element` says where an element stands, both in the literal bytes of a
template and in its list of markers. Rendering uses the first to drop bytes and
the second to drop markers, so both describe the same place.
-/

namespace HtmlTemplate

/-- Where an element stands. All offsets are in literal bytes. For an element
without an end tag the close offsets equal `openEnd`. -/
structure Element where
  /-- The name in the start tag. -/
  name : TagName
  /-- Offset of the `<` of the start tag. -/
  openStart : Nat
  /-- Offset right after the `>` of the start tag. -/
  openEnd : Nat := 0
  /-- Offset of the `<` of the end tag. -/
  closeStart : Nat := 0
  /-- Offset right after the `>` of the end tag. -/
  closeEnd : Nat := 0
  /-- Index of the first marker after the start tag. -/
  firstInnerMarker : Nat := 0
  /-- Index of the first marker after the element. -/
  nextMarker : Nat := 0
  /-- Whether the content marker of a wrapper stands between the tags. -/
  containsContent : Bool := false
  deriving DecidableEq

namespace Element

/-- The name as text. -/
def nameText (e : Element) : String := e.name.text

/-- Whether bytes, markers or the content marker stand between the tags. -/
def hasContent (e : Element) : Bool :=
  e.openEnd < e.closeStart || e.firstInnerMarker < e.nextMarker || e.containsContent

/-- The element with its start tag ended before offset `stop`, where `markers`
markers have been met. -/
def endOpen (e : Element) (stop markers : Nat) : Element :=
  { e with openEnd := stop, firstInnerMarker := markers }

/-- The element with an end tag from `start` to `stop`, where `markers` markers
have been met. -/
def endClose (e : Element) (start stop markers : Nat) : Element :=
  { e with closeStart := start, closeEnd := stop, nextMarker := markers }

end Element

end HtmlTemplate
