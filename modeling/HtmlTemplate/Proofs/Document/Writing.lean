import HtmlTemplate.Proofs.Document.Callbacks
import HtmlTemplate.Proofs.Rendering.Evaluation

/-!
# What a page writes

A page is rendered through a source, numbered names, a compiled template and a walk over it. Seen
from outside, all this writes the page from its first tag to its last. `Document.write` does the
same with nothing in between: it puts strings together, and runs the callbacks where they stand.

Results:
1. `Document.write`: the page, written part by part. `write_eq_writeParts` says that these are the
   parts the source is made of.
2. `Splits.parse`, `eval_outlineOf`: the outline of the source writes the parts.
3. `tokens_and_output_of_build`: no text of the author is read as a token, and a page that is
   built is rendered as it is written.
-/

namespace HtmlTemplate

open Render

variable {ω δ : Type}

/-! ## 1. Writing a page -/

/-- Writes the HTML of the fragment, and runs its callback. -/
def Fragment.write (f : Fragment ω δ) (data : δ) : Render ω Unit := do
  Render.writeRaw f.html
  match f.dynamic with
  | none => pure ()
  | some run => unlessHalted (run data)

/-- Writes the fragment between markup, if there is one. -/
def Fragment.writeBetween (before : String) (f? : Option (Fragment ω δ)) (after : String)
    (data : δ) : Render ω Unit :=
  match f? with
  | none => pure ()
  | some f => do
    Render.writeRaw before
    f.write data
    Render.writeRaw after

/-- The text as it stands in HTML. -/
def escaped (text : String) : String := (Entity.escapeHtml text).text

/-- A metadata element, if there is something to say. -/
def Metadata.elementText (name : String) : Option String → String
  | none => ""
  | some content => "<meta name=\"" ++ name ++ "\" content=\"" ++ escaped content ++ "\">"

/-- The metadata elements. Keywords are joined by commas. -/
def Metadata.text (m : Metadata) : String :=
  elementText "viewport" m.viewport ++ elementText "application-name" m.applicationName ++
    elementText "author" m.author ++ elementText "description" m.description ++
    elementText "generator" m.generator ++
    elementText "keywords" (if m.keywords = [] then none else some (",".intercalate m.keywords)) ++
    elementText "referrer" (m.referrer.map Referrer.text) ++
    elementText "theme-color" m.themeColor ++ elementText "color-scheme" m.colorScheme

def Link.text (l : Link) : String :=
  "<link rel=\"" ++ escaped l.rel ++ "\" href=\"" ++ escaped l.href ++ "\">"

def Script.text (s : Script) : String :=
  "<script src=\"" ++ escaped s.src ++ "\"" ++ (if s.deferred then " defer" else "") ++
    (if s.isModule then " type=\"module\"" else "") ++ "></script>"

/-- An attribute of the body. -/
def attributeText (pair : String × String) : String :=
  " " ++ escaped pair.1 ++ "=\"" ++ escaped pair.2 ++ "\""

namespace Document

/-- Writes the page. -/
def write (d : Document ω δ) (data : δ) : Render ω Unit := do
  Render.writeRaw ("<!DOCTYPE html>\n<html lang=\"" ++ escaped d.lang ++
    "\"><head><meta charset=\"utf-8\">")
  Fragment.writeBetween "<title>" d.head.title "</title>" data
  Render.writeRaw (d.head.metadata.text ++ String.join (d.head.links.map Link.text))
  Fragment.writeBetween "<style>" d.head.style "</style>" data
  Render.writeRaw (String.join (d.head.scripts.map Script.text) ++ "</head><body" ++
    String.join (d.bodyAttributes.map attributeText) ++ ">")
  Fragment.writeBetween "<noscript>" d.noscript "</noscript>" data
  d.body.forM fun f => f.write data
  Render.writeRaw "</body></html>\n"

/-- Writes the parts of a page in their order. -/
def writeParts (data : δ) : List (DocumentPart ω δ) → Render ω Unit
  | [] => pure ()
  | .markup html :: parts => do
    Render.writeRaw html
    writeParts data parts
  | .fragment f :: parts => do
    f.write data
    writeParts data parts

end Document

namespace Document

open DocumentPart

theorem writeParts_append (data : δ) (parts parts' : List (DocumentPart ω δ)) :
    writeParts data (parts ++ parts') = (do writeParts data parts; writeParts data parts') := by
  induction parts with
  | nil => rfl
  | cons p parts ih =>
    cases p with
    | markup html | fragment f => simp only [List.cons_append, writeParts, ih, bind_assoc]

/-- Escaped text is written as one string. -/
theorem writeParts_text (data : δ) (s : String) (parts : List (DocumentPart ω δ)) :
    writeParts data (text s :: parts) =
      (do Render.writeRaw (escaped s); writeParts data parts) := rfl

theorem writeParts_between (data : δ) (before : String) (f? : Option (Fragment ω δ))
    (after : String) :
    writeParts data (between before f? after) = Fragment.writeBetween before f? after data := by
  cases f? with
  | none => rfl
  | some f => simp [between, writeParts, Fragment.writeBetween]

theorem writeParts_metadata (data : δ) (name : String) (content? : Option String) :
    writeParts data (DocumentPart.metadata name content? : List (DocumentPart ω δ)) =
      Render.writeRaw (Metadata.elementText name content?) := by
  cases content? with
  | none => exact writeRaw_empty.symm
  | some content =>
    -- By `simp` the text would be compared with its definition byte by byte.
    delta Metadata.elementText
    simp [DocumentPart.metadata, writeParts, writeParts_text, writeRaw_append]

/-- Parts made for each member of a list are written as one string, if each is. -/
theorem writeParts_flatMap {α : Type} {parts : α → List (DocumentPart ω δ)} {html : α → String}
    (data : δ) (h : ∀ a, writeParts data (parts a) = Render.writeRaw (html a)) (as : List α) :
    writeParts data (as.flatMap parts) = Render.writeRaw (String.join (as.map html)) := by
  induction as with
  | nil => exact writeRaw_empty.symm
  | cons a as ih =>
    rw [List.flatMap_cons, writeParts_append, h, ih, List.map_cons, String.join_cons,
      writeRaw_append]

theorem writeParts_fragments (data : δ) (fs : List (Fragment ω δ)) :
    writeParts data (fs.map DocumentPart.fragment) = fs.forM fun f => f.write data := by
  induction fs with
  | nil => rfl
  | cons f fs ih =>
    rw [List.map_cons, writeParts, ih]
    rfl

theorem writeParts_metadataParts (data : δ) (m : Metadata) :
    writeParts data (m.parts : List (DocumentPart ω δ)) = Render.writeRaw m.text := by
  have hkeywords : m.keywordText? =
      if m.keywords = [] then none else some (",".intercalate m.keywords) := by
    simp [Metadata.keywordText?, List.isEmpty_iff]
  simp only [Metadata.parts, Metadata.text, writeParts_append, writeParts_metadata,
    writeRaw_append, hkeywords]

theorem writeParts_link (data : δ) (l : Link) :
    writeParts data (link l : List (DocumentPart ω δ)) = Render.writeRaw l.text := by
  delta Link.text
  simp [link, writeParts, writeParts_text, writeRaw_append]

theorem writeParts_script (data : δ) (s : Script) :
    writeParts data (script s : List (DocumentPart ω δ)) = Render.writeRaw s.text := by
  delta Script.text
  simp [script, writeParts, writeParts_text, writeRaw_append]

theorem writeParts_bodyAttribute (data : δ) (pair : String × String) :
    writeParts data (bodyAttribute pair : List (DocumentPart ω δ)) =
      Render.writeRaw (attributeText pair) := by
  simp [bodyAttribute, writeParts, writeParts_text, attributeText, writeRaw_append]

/-- A page is written part by part. -/
theorem write_eq_writeParts (d : Document ω δ) (data : δ) :
    d.write data = writeParts data d.parts := by
  simp only [write, parts, Head.parts, writeParts_append, writeParts, writeParts_text,
    writeParts_between, writeParts_metadataParts, writeParts_flatMap data (writeParts_link data),
    writeParts_flatMap data (writeParts_script data),
    writeParts_flatMap data (writeParts_bodyAttribute data), writeParts_fragments,
    writeRaw_append, bind_assoc, bind_pure_unit]

/-! ## 2. The outline of the source -/

/-- The outline of the parts: the characters of the markup, and each fragment as a text with a
plain marker behind it. -/
def outlineOf : List (DocumentPart ω δ) → Outline ω δ
  | [] => .stop
  | .markup html :: parts =>
    html.toList.foldr (fun c rest => .text (String.singleton c) rest) (outlineOf parts)
  | .fragment f :: parts =>
    .text f.html <|
      match f.dynamic with
      | none => outlineOf parts
      | some run => .plain run (outlineOf parts)

/-- The source is read as it has been put together. -/
theorem Splits.parse {number : Nat} {parts : List (DocumentPart ω δ)} {pieces : List Piece}
    (h : Splits number parts pieces) :
    Outline.parse pieces (declarationsFrom number parts) = some (outlineOf parts, []) := by
  induction h with
  | nil => rfl
  | @markup number html parts pieces _ ih => exact Outline.parse_chars ih html
  | @fragment number f t parts pieces hk _ ih =>
    obtain ⟨kind, start, stop⟩ := t
    cases hk
    simp only [declarationsFrom, Outline.parse, if_true, ih, outlineOf]
    cases f.dynamic <;> rfl

theorem ofSource?_parts (d : Document ω δ) :
    Outline.ofSource? (sourceFrom 0 d.parts) (declarationsFrom 0 d.parts) =
      some (outlineOf d.parts) := by
  rw [Outline.ofSource?, (splits_parts d).parse]

/-- The outline of the parts writes the parts. -/
theorem eval_outlineOf (data : δ) (parts : List (DocumentPart ω δ)) :
    (outlineOf parts).eval data = writeParts data parts := by
  induction parts with
  | nil => rfl
  | cons p parts ih =>
    cases p with
    | markup html =>
      exact (Outline.eval_chars data html _).trans (congrArg _ (funext fun _ => ih))
    | fragment f =>
      rw [outlineOf, Outline.eval, writeParts, Fragment.write]
      cases f.dynamic <;> simp [Outline.eval, ih]

/-! ## 3. Rendering a page -/

/-- The callbacks of a page are not run in start tags. -/
theorem keepsElement_declarationsFrom (number : Nat) (parts : List (DocumentPart ω δ)) :
    ∀ d ∈ declarationsFrom number parts, d.KeepsElement := by
  intro d hd run hrun
  have hkind : ∀ callback, d.callback = some callback → callback.kind = .plain := by
    clear hrun
    induction parts generalizing number with
    | nil => cases hd
    | cons p parts ih =>
      cases p with
      | markup html => exact ih number hd
      | fragment f =>
        rcases List.mem_cons.mp hd with rfl | hd
        · intro callback hc
          obtain ⟨run, -, rfl⟩ := Option.map_eq_some_iff.mp hc
          rfl
        · exact ih (number + 1) hd
  cases hkind _ hrun

/-- No text of the author is read as a token: the tokens are those of the page itself, one for
each text, and the markers that are left of them are the callbacks of the page. A page that is
built is rendered as it is written: the markup, the escaped texts, and the HTML and callbacks of
the fragments, in their order and up to the first halt. -/
theorem tokens_and_output_of_build {d : Document ω δ} {c : Component ω δ} (h : d.build = .ok c) :
    (Token.ofSource (sourceFrom 0 d.parts)).map Token.kind =
        (List.range (d.parts.filterMap fragment?).length).map
          (TokenKind.plain <| markerName ·) ∧
      c.template.markers.toList.map Marker.action = d.callbacks.map Action.plain ∧
      ∀ data, c.render data = d.write data := by
  refine ⟨kinds_ofSource d, (template_of_build h).1, fun data => ?_⟩
  rw [Component.render_of_ofSource? h (keepsElement_declarationsFrom 0 d.parts) (ofSource?_parts d),
    eval_outlineOf, write_eq_writeParts]

/-- A page full of what looks like tokens, also where one text ends and the next begins. -/
def tokenPage : Document Unit String :=
  { lang := "$\x7blang\x7d"
    head :=
      { title := some ((Fragment.ofText "$\x7b\x7d & ").andThen fun text => Render.write text)
        metadata :=
          { author := some "$\x7b\x7bm0", keywords := ["$\x7b", "m1", "\x7d\x7d"],
            referrer := some .sameOrigin }
        links := [{ href := "\x7d" }]
        style := some (.ofHtml "a\x7b\x7d")
        scripts := [{ src := "m2\x7d", deferred := true, isModule := true }] }
    bodyAttributes := [("$\x7b", "m3"), ("", "\x7d\x7d")]
    noscript := some (.ofHtml "$\x7bm4\x7d")
    body := [.ofHtml "<p>$", .ofHtml "\x7bm5", .ofHtml "\x7d</p>",
      .ofCallback fun _ => Render.halt, .ofHtml "$\x7b\x7b\x7d\x7d"] }

theorem tokens_and_output_of_tokenPage :
    ∃ c, tokenPage.build = .ok c ∧
      (Token.ofSource (sourceFrom 0 tokenPage.parts)).map Token.kind =
        (List.range (tokenPage.parts.filterMap fragment?).length).map
          (TokenKind.plain <| markerName ·) ∧
      c.template.markers.toList.map Marker.action = tokenPage.callbacks.map Action.plain ∧
      ∀ data, c.render data = tokenPage.write data := by
  have hbuild : tokenPage.build.isOk = true := by
    unfold Document.build Component.compile compile?
    rw [pieces_of_ascii (by decide +kernel)]
    decide +kernel
  obtain ⟨c, hc⟩ := exists_eq_ok hbuild
  exact ⟨c, hc, tokens_and_output_of_build hc⟩

end Document

end HtmlTemplate
