import HtmlTemplate.Markup.TagReader
import HtmlTemplate.Template.Basic
import HtmlTemplate.Template.Error
import HtmlTemplate.Template.Token

/-!
# Compiling templates

A source and the declarations of its markers are compiled in one pass from left
to right. `Assembly` is what has been compiled so far; each piece of the source
adds to it or is refused.

* Text goes to the literal bytes, as long as there is room for it, and the tag
  reader follows it.
* A content token fixes the place of the content marker.
* A named token uses up the next declaration. Its static text goes to the
  literal bytes. With a callback it becomes a marker; a wrapper start without a
  callback is remembered, so that its end leaves no marker either.
* A wrapper end closes the wrapper opened last.

`compile?` is the pass over all pieces with the checks that need the whole
source. `Component.compile` and `Wrapper.compile` are the two uses of it.
-/

namespace HtmlTemplate

variable {ω δ : Type}

/-- How many literal bytes a template can have at most, so that the offsets into
them fit into 32 bits. -/
def literalBound : Nat := UInt32.size - 1

/-- How many markers are declared, and how many the source has. -/
structure MarkerCounts where
  declared : Nat
  found : Nat
  deriving DecidableEq, Repr

/-- A template being compiled. -/
structure Assembly (ω δ : Type) where
  counts : MarkerCounts
  /-- The declarations not used yet. -/
  declarations : List (Declaration ω δ)
  reader : TagReader := {}
  html : ByteArray := .empty
  markers : Array (Marker ω δ) := #[]
  /-- The open wrappers, the innermost first: the indices of their markers, or
  `none` for those that left no marker. -/
  openWrappers : List (Option Nat) := []
  /-- The number of open wrappers that left a marker. -/
  keptDepth : Nat := 0
  /-- The greatest value of `keptDepth` so far. -/
  maxNesting : Nat := 0
  content : Option Place := none
  /-- The names met so far. -/
  seen : List String := []
  /-- The position of the last marker. -/
  lastPosition : Nat := 0

namespace Assembly

/-! ## 1. Literal bytes and markers -/

/-- What the tag reader is told about the template so far. -/
def surroundings (a : Assembly ω δ) : Surroundings :=
  { markers := a.markers.size, depth := a.openWrappers.length }

/-- How many literal bytes can still be added. -/
def room (a : Assembly ω δ) : Nat := literalBound - a.html.size

/-- Adds a literal byte. One for which there is no room is not read. -/
def addByte (a : Assembly ω δ) (byte : UInt8) : Except TemplateError (Assembly ω δ) :=
  if a.room = 0 then .error .tooLarge
  else
    match a.reader.step a.surroundings byte with
    | (reader, none) => .ok { a with reader := reader, html := a.html.push byte }
    | (_, some name) => .error (.wrapperCrossesElement name)

/-- Adds literal bytes. -/
def addBytes (a : Assembly ω δ) (bytes : List UInt8) : Except TemplateError (Assembly ω δ) :=
  bytes.foldlM addByte a

/-- The place that has been reached. -/
def place (a : Assembly ω δ) : Place := { marker := a.markers.size, offset := a.html.size }

/-- Tells the tag reader that a token stands here. -/
def interrupt (a : Assembly ω δ) : Assembly ω δ := { a with reader := a.reader.interrupt }

/-- Refuses a wrapper or content token inside a tag. -/
def requireOutsideTag (a : Assembly ω δ) (start : Nat) : Except TemplateError Unit :=
  if a.reader.insideTag then .error (.tokenInsideTag start) else .ok ()

/-- Adds a marker at the place that has been reached. -/
def addMarker (a : Assembly ω δ) (name : String) (action : Action ω δ) : Assembly ω δ :=
  let span : Span := { start := a.lastPosition, stop := a.html.size }
  { a with
    markers := a.markers.push { name := name, span := span, action := action }
    lastPosition := a.html.size }

/-! ## 2. Content and wrapper ends -/

/-- Adds a content token that starts at byte `start` of the source. -/
def addContent (a : Assembly ω δ) (start : Nat) : Except TemplateError (Assembly ω δ) := do
  let a := a.interrupt
  a.requireOutsideTag start
  if a.content.isSome then throw .duplicateContent
  return { a with reader := a.reader.markContent, content := some a.place }

/-- Adds the wrapper end of the marker with index `opening`. -/
def closeWrapper (a : Assembly ω δ) (opening : Nat) : Assembly ω δ :=
  let closing := a.markers.size
  let name := (a.markers[opening]?.map Marker.name).getD ""
  let a := a.addMarker name (.wrapperEnd opening)
  { a with
    keptDepth := a.keptDepth - 1
    markers := a.markers.modify opening (·.closedBy closing) }

/-- Adds a wrapper end that starts at byte `start` of the source. -/
def addWrapperEnd (a : Assembly ω δ) (start : Nat) : Except TemplateError (Assembly ω δ) := do
  let a := a.interrupt
  a.requireOutsideTag start
  match a.openWrappers with
  | [] => throw .unbalancedWrapper
  | opening :: rest =>
    if let some name := a.reader.crossedAt? rest.length then
      throw (.wrapperCrossesElement name)
    let a := { a with openWrappers := rest }
    match opening with
    | none => return a
    | some index => return a.closeWrapper index

/-! ## 3. Named tokens -/

/-- The declaration of the next named token, which has the given name. -/
def takeDeclaration (a : Assembly ω δ) (name : String) :
    Except TemplateError (Declaration ω δ × Assembly ω δ) :=
  if name ∈ a.seen then .error (.duplicateName name)
  else
    match a.declarations with
    | [] => .error (.markerCount a.counts.declared a.counts.found)
    | d :: rest =>
      if d.name ≠ name then .error (.nameOrder d.name name)
      else .ok (d, { a with declarations := rest, seen := name :: a.seen })

/-- The kind of marker that a plain named token makes here. -/
def plainKind (a : Assembly ω δ) (name : String) : Except TemplateError MarkerKind :=
  if a.reader.inStartTag then .ok .attributes
  else if a.reader.inEndTag then .error (.markerInsideEndTag name)
  else .ok .plain

/-- Adds a wrapper start with its callback. -/
def openWrapper (a : Assembly ω δ) (name : String) (run : δ → WrapperRender ω Unit) :
    Assembly ω δ :=
  let depth := a.keptDepth + 1
  { a.addMarker name (.wrapperStart run none) with
    openWrappers := some a.markers.size :: a.openWrappers
    keptDepth := depth
    maxNesting := max a.maxNesting depth }

/-- Adds a marker of the given kind, if the callback fits it. -/
def addCallback (a : Assembly ω δ) (name : String) (kind : MarkerKind) (callback : Callback ω δ) :
    Except TemplateError (Assembly ω δ) :=
  match kind, callback with
  | .plain, .plain run => .ok (a.addMarker name (.plain run))
  | .attributes, .attributes run =>
    let (reader, element) := a.reader.attachMarker
    .ok ({ a with reader := reader }.addMarker name (.attributes run element))
  | .wrapperStart, .wrapper run => .ok (a.openWrapper name run)
  | kind, callback => .error (.callbackKind name kind callback.kind)

/-- Adds a named token that starts at byte `start` of the source. `isWrapper`
tells a wrapper start from a plain token. -/
def addNamed (a : Assembly ω δ) (name : String) (isWrapper : Bool) (start : Nat) :
    Except TemplateError (Assembly ω δ) := do
  let (d, a) ← a.takeDeclaration name
  let a ← a.addBytes d.staticHtml.toUTF8.data.toList
  let a := a.interrupt
  let kind ←
    if isWrapper then do
      a.requireOutsideTag start
      pure MarkerKind.wrapperStart
    else a.plainKind name
  match d.callback with
  | some callback => a.addCallback name kind callback
  | none =>
    return if isWrapper then { a with openWrappers := none :: a.openWrappers } else a

/-! ## 4. The pass -/

/-- Adds a token. -/
def addToken (a : Assembly ω δ) (t : Token) : Except TemplateError (Assembly ω δ) :=
  match t.kind with
  | .content => a.addContent t.start
  | .wrapperEnd => a.addWrapperEnd t.start
  | .wrapperStart name => a.addNamed name true t.start
  | .plain name => a.addNamed name false t.start

/-- Adds a piece of the source. -/
def addPiece (a : Assembly ω δ) : Piece → Except TemplateError (Assembly ω δ)
  | .text c => a.addBytes (String.utf8EncodeChar c)
  | .token t => a.addToken t

/-- The template, once all pieces are added. -/
def finish (a : Assembly ω δ) : Except TemplateError (Template ω δ) := do
  unless a.openWrappers.isEmpty do throw .unbalancedWrapper
  match a.reader.finish with
  | .error name => throw (.unclosedElement name)
  | .ok elements =>
    unless a.declarations.isEmpty do
      throw (.markerCount a.counts.declared a.counts.found)
    return { html := a.html, markers := a.markers, elements := elements }

end Assembly

/-- The first name in the list that an earlier one equals. -/
def firstRepeated? (seen : List String) : List String → Option String
  | [] => none
  | name :: rest => if name ∈ seen then some name else firstRepeated? (name :: seen) rest

/-- Compiles a source: the finished assembly and its template. The content
marker is not looked at. -/
def compile? (source : String) (declarations : List (Declaration ω δ)) :
    Except TemplateError (Assembly ω δ × Template ω δ) := do
  let pieces := pieces source
  let found := (pieces.filterMap Piece.token?).countP fun t => t.kind.isNamed
  if let some name := firstRepeated? [] (declarations.map Declaration.name) then
    throw (.duplicateName name)
  let start : Assembly ω δ :=
    { counts := { declared := declarations.length, found := found }, declarations := declarations }
  let a ← pieces.foldlM Assembly.addPiece start
  let template ← a.finish
  return (a, template)

/-- Compiles a template without a content marker. -/
def Component.compile (source : String) (declarations : List (Declaration ω δ)) :
    Except TemplateError (Component ω δ) := do
  let (a, template) ← compile? source declarations
  if a.content.isSome then throw .unexpectedContent
  return { template := template, part := .whole, entry := template.start, exit := template.stop,
           maxNesting := a.maxNesting }

/-- Compiles a template with exactly one content marker. -/
def Wrapper.compile (source : String) (declarations : List (Declaration ω δ)) :
    Except TemplateError (Wrapper ω δ) := do
  let (a, template) ← compile? source declarations
  match a.content with
  | none => throw .missingContent
  | some content => return { template := template, content := content, maxNesting := a.maxNesting }

end HtmlTemplate
