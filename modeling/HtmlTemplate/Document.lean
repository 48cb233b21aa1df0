import HtmlTemplate.Rendering.Walk
import HtmlTemplate.Template.Assembly

/-!
# Whole documents

A `Document` describes an HTML page: language, head, body attributes and body.
Its texts are `Fragment`s, which are HTML followed by the output of an optional
callback. Everything else is plain text that is escaped.

`Document.parts` lists the parts of the page in their order. `Document.build`
makes a template of them, in which every part that does not belong to the page
itself stands as the static text of a marker of its own. So no text that the
author gives is read as a token.
-/

namespace HtmlTemplate

variable {ω δ : Type}

/-- HTML followed by the output of an optional callback. -/
structure Fragment (ω δ : Type) where
  html : String := ""
  dynamic : Option (δ → Render ω Unit) := none

namespace Fragment

/-- HTML that is put in as it is. -/
def ofHtml (html : String) : Fragment ω δ := { html := html }

/-- Text that is escaped. -/
def ofText (text : String) : Fragment ω δ := { html := (Entity.escapeHtml text).text }

/-- The output of a callback. -/
def ofCallback (run : δ → Render ω Unit) : Fragment ω δ := { dynamic := some run }

/-- The fragment with a callback after its HTML. -/
def andThen (f : Fragment ω δ) (run : δ → Render ω Unit) : Fragment ω δ :=
  { f with dynamic := some run }

end Fragment

/-- How much of the address of a page is told to the pages it links to. -/
inductive Referrer where
  | noReferrer
  | noReferrerWhenDowngrade
  | origin
  | originWhenCrossOrigin
  | sameOrigin
  | strictOrigin
  | strictOriginWhenCrossOrigin
  | unsafeUrl
  deriving DecidableEq, Repr

namespace Referrer

/-- The word for the policy in HTML. -/
def text : Referrer → String
  | noReferrer => "no-referrer"
  | noReferrerWhenDowngrade => "no-referrer-when-downgrade"
  | origin => "origin"
  | originWhenCrossOrigin => "origin-when-cross-origin"
  | sameOrigin => "same-origin"
  | strictOrigin => "strict-origin"
  | strictOriginWhenCrossOrigin => "strict-origin-when-cross-origin"
  | unsafeUrl => "unsafe-url"

/-- All policies. -/
def all : List Referrer :=
  [noReferrer, noReferrerWhenDowngrade, origin, originWhenCrossOrigin, sameOrigin, strictOrigin,
   strictOriginWhenCrossOrigin, unsafeUrl]

/-- The policy with the given word. -/
def ofText? (word : String) : Option Referrer := all.find? fun r => r.text = word

end Referrer

/-- What the head says about the page. -/
structure Metadata where
  viewport : Option String := none
  applicationName : Option String := none
  author : Option String := none
  description : Option String := none
  generator : Option String := none
  keywords : List String := []
  referrer : Option Referrer := none
  themeColor : Option String := none
  colorScheme : Option String := none

structure Link where
  rel : String := "stylesheet"
  href : String

structure Script where
  src : String
  deferred : Bool := false
  isModule : Bool := false

structure Head (ω δ : Type) where
  title : Option (Fragment ω δ) := none
  metadata : Metadata := {}
  links : List Link := []
  style : Option (Fragment ω δ) := none
  scripts : List Script := []

structure Document (ω δ : Type) where
  lang : String := "en"
  head : Head ω δ := {}
  bodyAttributes : List (String × String) := []
  noscript : Option (Fragment ω δ) := none
  body : List (Fragment ω δ) := []

/-- A part of a page. -/
inductive DocumentPart (ω δ : Type) where
  /-- Markup that belongs to the page itself. -/
  | markup (html : String)
  | fragment (f : Fragment ω δ)

namespace DocumentPart

/-- Text that is escaped. -/
def text (s : String) : DocumentPart ω δ := fragment (.ofText s)

/-- The fragment between markup, if there is one. -/
def between (before : String) (f? : Option (Fragment ω δ)) (after : String) :
    List (DocumentPart ω δ) :=
  match f? with
  | none => []
  | some f => [markup before, fragment f, markup after]

/-- A metadata element, if there is something to say. -/
def metadata (name : String) (content? : Option String) : List (DocumentPart ω δ) :=
  match content? with
  | none => []
  | some content =>
    [markup ("<meta name=\"" ++ name ++ "\" content=\""), text content, markup "\">"]

/-- A link element. -/
def link (l : Link) : List (DocumentPart ω δ) :=
  [markup "<link rel=\"", text l.rel, markup "\" href=\"", text l.href, markup "\">"]

/-- A script element. -/
def script (s : Script) : List (DocumentPart ω δ) :=
  [markup "<script src=\"", text s.src,
   markup ("\"" ++ (if s.deferred then " defer" else "") ++
     (if s.isModule then " type=\"module\"" else "") ++ "></script>")]

/-- An attribute of the body. -/
def bodyAttribute (pair : String × String) : List (DocumentPart ω δ) :=
  [markup " ", text pair.1, markup "=\"", text pair.2, markup "\""]

end DocumentPart

namespace Metadata

/-- The keywords as one text. -/
def keywordText? (m : Metadata) : Option String :=
  if m.keywords.isEmpty then none else some (",".intercalate m.keywords)

/-- The metadata elements. -/
def parts (m : Metadata) : List (DocumentPart ω δ) :=
  DocumentPart.metadata "viewport" m.viewport ++
  DocumentPart.metadata "application-name" m.applicationName ++
  DocumentPart.metadata "author" m.author ++
  DocumentPart.metadata "description" m.description ++
  DocumentPart.metadata "generator" m.generator ++
  DocumentPart.metadata "keywords" m.keywordText? ++
  DocumentPart.metadata "referrer" (m.referrer.map Referrer.text) ++
  DocumentPart.metadata "theme-color" m.themeColor ++
  DocumentPart.metadata "color-scheme" m.colorScheme

end Metadata

namespace Head

/-- The parts between the tags of the head, after the character set. -/
def parts (h : Head ω δ) : List (DocumentPart ω δ) :=
  DocumentPart.between "<title>" h.title "</title>" ++
  h.metadata.parts ++
  h.links.flatMap DocumentPart.link ++
  DocumentPart.between "<style>" h.style "</style>" ++
  h.scripts.flatMap DocumentPart.script

end Head

namespace Document

open DocumentPart in
/-- The parts of the page in their order. -/
def parts (d : Document ω δ) : List (DocumentPart ω δ) :=
  [markup "<!DOCTYPE html>\n<html lang=\"", text d.lang,
   markup "\"><head><meta charset=\"utf-8\">"] ++
  d.head.parts ++
  [markup "</head><body"] ++
  d.bodyAttributes.flatMap bodyAttribute ++
  [markup ">"] ++
  between "<noscript>" d.noscript "</noscript>" ++
  d.body.map fragment ++
  [markup "</body></html>\n"]

/-- The name of the marker with this number. -/
def markerName (number : Nat) : String := "m" ++ toString number

/-- The template source of parts, whose fragments are numbered from `number` on. -/
def sourceFrom (number : Nat) : List (DocumentPart ω δ) → String
  | [] => ""
  | .markup html :: rest => html ++ sourceFrom number rest
  | .fragment _ :: rest => "$\x7b" ++ markerName number ++ "\x7d" ++ sourceFrom (number + 1) rest

/-- The declarations of the fragments, numbered from `number` on. -/
def declarationsFrom (number : Nat) : List (DocumentPart ω δ) → List (Declaration ω δ)
  | [] => []
  | .markup _ :: rest => declarationsFrom number rest
  | .fragment f :: rest =>
    { name := markerName number, staticText := some f.html,
      callback := f.dynamic.map Callback.plain } :: declarationsFrom (number + 1) rest

/-- The page as a compiled template. -/
def build (d : Document ω δ) : Except TemplateError (Component ω δ) :=
  Component.compile (sourceFrom 0 d.parts) (declarationsFrom 0 d.parts)

end Document

end HtmlTemplate
