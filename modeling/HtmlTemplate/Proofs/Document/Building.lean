import HtmlTemplate.Proofs.Document.Callbacks
import HtmlTemplate.Proofs.Markup.Inert
import HtmlTemplate.Proofs.Template.Origins
import HtmlTemplate.Proofs.Template.Refusals
import HtmlTemplate.Proofs.Template.Sources
import HtmlTemplate.Proofs.Text.Boundaries

/-!
# Pages that are built

A page whose texts are escaped is refused for nothing but its size. Its source is read by a lexer
that the markup of the page leads from text to a value, a start tag or the text of a style, and
back. Escaped text leaves the lexer where it is, so that is a matter of the markup alone.

Results:
1. `TagLexer.Alike.after`: how a lexer goes on depends on a few of its fields only.
2. `inertText_escapeHtml`: escaped text is inert.
3. `Leads`: parts lead a lexer from one place to another. `leads_parts`: the parts of a page lead
   it from text to text.
4. `exists_ok_of_leads`: parts that lead somewhere are compiled, if there is room for them.
   Otherwise they are refused for that (`tooLarge_of_leads`).
5. `exists_build_of_textOnly`: a page with escaped texts is built, or it is too large.
-/

namespace HtmlTemplate

open Markup

variable {ω δ : Type}

/-! ## 1. What a lexer goes by -/

namespace TagState

/-- What follows depends on the name of the tag being read, and on a slash before its end. -/
def inOpenTag (s : TagState) : Bool := s.inStartTag || s.inValue

end TagState

namespace TagLexer

/-- The lexers are alike in what they go by. -/
structure Alike (l l' : TagLexer) : Prop where
  state : l.state = l'.state
  name : l.state.inOpenTag = true → l.name = l'.name ∧ l.selfClosing = l'.selfClosing
  rawName : l.state.inRawText = true → l.rawName = l'.rawName

variable {l l' l'' : TagLexer}

theorem Agrees.alike (h : l.Agrees l') : l.Alike l' :=
  ⟨h.state, fun _ => ⟨h.name, h.selfClosing⟩, fun _ => h.rawName⟩

theorem Alike.trans (h : l.Alike l') (h' : l'.Alike l'') : l.Alike l'' := by
  refine ⟨h.state.trans h'.state, fun htag => ?_, fun hraw => ?_⟩
  · have hname := h.name htag
    have hname' := h'.name (h.state ▸ htag)
    exact ⟨hname.1.trans hname'.1, hname.2.trans hname'.2⟩
  · exact (h.rawName hraw).trans (h'.rawName (h.state ▸ hraw))

/-- Lexers that are alike read a byte alike. -/
theorem Alike.read (h : l.Alike l') (byte : UInt8) : (l.read byte).1.Alike (l'.read byte).1 := by
  have hfalse {p : Prop} (h : false = true) : p := absurd h Bool.false_ne_true
  obtain ⟨offset, state, tagStart, name, selfClosing, rawName⟩ := l
  obtain ⟨offset', state', tagStart', name', selfClosing', rawName'⟩ := l'
  obtain ⟨hstate, hname, hraw⟩ := h
  simp only at hstate hname hraw
  subst hstate
  cases state with
  | tagName | inTag | quoted quote =>
    obtain ⟨rfl, rfl⟩ := hname rfl
    simp only [TagLexer.read, readTagName, readInTag, endStartTag, growName]
    (repeat' split) <;>
      exact ⟨rfl, fun _ => ⟨rfl, rfl⟩, by first | exact fun _ => rfl | exact hfalse⟩
  | rawText matched =>
    obtain rfl := hraw rfl
    simp only [TagLexer.read, readRawText, endEndTag]
    (repeat' split) <;> exact ⟨rfl, hfalse, fun _ => rfl⟩
  | lessThan =>
    simp only [TagLexer.read, readLessThan, readText, startName]
    (repeat' split) <;>
      exact ⟨rfl, by first | exact fun _ => ⟨rfl, rfl⟩ | exact hfalse, hfalse⟩
  | text | lessThanSlash | endTagName | inEndTag | bang _ | comment _ | declaration =>
    simp only [TagLexer.read, readText, readLessThanSlash, readEndTagName, endEndTag, startName,
      growName, TagState.afterBang, TagState.afterComment]
    (repeat' split) <;> exact ⟨rfl, hfalse, hfalse⟩

theorem Alike.step (h : l.Alike l') (byte : UInt8) : (l.step byte).1.Alike (l'.step byte).1 :=
  have hread := h.read byte
  ⟨hread.state, hread.name, hread.rawName⟩

theorem Alike.after (h : l.Alike l') (bytes : List UInt8) :
    (l.after bytes).Alike (l'.after bytes) := by
  induction bytes generalizing l l' with
  | nil => exact h
  | cons byte bytes ih => exact ih (h.step byte)

instance (l l' : TagLexer) : Decidable (l.Alike l') :=
  decidable_of_iff
    (l.state = l'.state ∧
      (l.state.inOpenTag = true → l.name = l'.name ∧ l.selfClosing = l'.selfClosing) ∧
      (l.state.inRawText = true → l.rawName = l'.rawName))
    ⟨fun h => ⟨h.1, h.2.1, h.2.2⟩, fun h => ⟨h.state, h.name, h.rawName⟩⟩

/-- A marker does not move a lexer that no inert byte moves. -/
theorem interrupt_of_steady (h : l.state.Steady) : l.interrupt = l := by
  obtain ⟨offset, state, tagStart, name, selfClosing, rawName⟩ := l
  cases state with
  | text | declaration | quoted quote => rfl
  | rawText matched =>
    cases matched with
    | zero => rfl
    | succ matched => cases h
  | _ => cases h

/-- Where inert text and a marker leave the lexer as it was: outside of tags and in values, and
between the attributes of a start tag. -/
def Admits (l : TagLexer) : Prop := l.state.Steady ∨ l.state = .inTag ∧ l.selfClosing = false

theorem Alike.admits (h : l.Alike l') (h' : l'.Admits) : l.Admits := by
  rcases h' with hsteady | ⟨htag, hslash⟩
  · exact .inl (h.state ▸ hsteady)
  · have hstate := h.state.trans htag
    exact .inr ⟨hstate, (h.name (by rw [hstate]; rfl)).2.trans hslash⟩

theorem alike_of_admits (h : l.Admits) {bytes : List UInt8} (hb : InertText bytes) :
    (l.after bytes).interrupt.Alike l := by
  rcases h with hsteady | ⟨htag, hslash⟩
  · have hagrees := (passesOver_of_inert hsteady hb).agrees
    rw [interrupt_of_steady (hagrees.state ▸ hsteady)]
    exact hagrees.alike
  · -- the marker takes back what has been taken for a slash
    obtain ⟨offset, slash, hafter, -⟩ := after_key htag hb
    obtain ⟨offset', state, tagStart, name, selfClosing, rawName⟩ := l
    cases htag
    cases hslash
    rw [hafter]
    exact ⟨rfl, fun _ => ⟨rfl, rfl⟩, fun _ => rfl⟩

end TagLexer

/-! ## 2. Escaped text -/

/-- Escaped text is inert, also before the first byte that had to be replaced. -/
theorem Entity.inertText_escapeHtml (s : String) :
    InertText (sourceBytes (escapeHtml s).text) := by
  unfold escapeHtml
  simp only
  split
  · next hnone =>
    intro byte hbyte
    have hfalse := Array.findIdx?_eq_none_iff.mp hnone byte (Array.mem_toList_iff.mp hbyte)
    exact inert_of_html_eq_none (by simpa using hfalse)
  · next first hfirst =>
    obtain ⟨hlt, hspecial, hbefore⟩ := Array.findIdx?_eq_some_iff_getElem.mp hfirst
    have hsize : first < s.toUTF8.size := hlt
    obtain ⟨entity, hentity⟩ := Option.isSome_iff_exists.mp hspecial
    have hs : s.toUTF8.IsValidUTF8 := s.isValidUTF8
    have hcut := (onBoundary_of_ascii hs hsize (textual_html _ entity hentity).1).1
    have hvalid := isValidUTF8_appendEscaped textual_html hcut.front
      (hcut.extract (.size hs) hs hsize.le)
    obtain ⟨inert, hinert, happend⟩ := exists_inert_of_appendEscaped
      (s.toUTF8.extract 0 first) (s.toUTF8.extract first s.toUTF8.size)
    have hfront : InertText (s.toUTF8.extract 0 first).data.toList := by
      refine inertText_extract hsize.le fun j hj _ hlt' => ?_
      rw [ByteArray.getElem_eq_getElem_data]
      simpa using hbefore j hlt'
    show InertText (Utf8.toText _).toUTF8.data.toList
    rw [Utf8.toUTF8_toText hvalid, happend, ByteArray.data_append, Array.toList_append]
    exact hfront.append hinert

/-- The HTML of the fragment is escaped text, or empty. -/
def Fragment.IsText (f : Fragment ω δ) : Prop :=
  f.html = "" ∨ ∃ text, f.html = (Entity.escapeHtml text).text

theorem Fragment.IsText.inert {f : Fragment ω δ} (h : f.IsText) :
    InertText (sourceBytes f.html) := by
  rcases h with hempty | ⟨text, htext⟩
  · rw [hempty]
    exact .nil
  · rw [htext]
    exact Entity.inertText_escapeHtml text

/-! ## 3. Where parts lead -/

namespace TagLexer

/-- In a value in double quotes of a start tag with the given name. -/
def inValueOf (name : String) : TagLexer :=
  { state := .quoted '"'.toUInt8, name := TagName.ofString name }

/-- Behind the name of the start tag of the body. -/
def behindBody : TagLexer := { state := .tagName, name := TagName.ofString "body" }

/-- Between the attributes of the body. -/
def inBody : TagLexer := { state := .inTag, name := TagName.ofString "body" }

/-- In the text of a style. -/
def inStyle : TagLexer := { state := .rawText 0, rawName := TagName.ofString "style" }

end TagLexer

namespace Document

open DocumentPart TagLexer

/-- A lexer that is like the first one before the parts is like the second one behind them. All
fragments stand where they may, and those between attributes have no callback. -/
inductive Leads : TagLexer → List (DocumentPart ω δ) → TagLexer → Prop
  | nil {l : TagLexer} : Leads l [] l
  | markup {l m n : TagLexer} {html : String} {parts : List (DocumentPart ω δ)} :
      (l.after (sourceBytes html)).Alike m → Leads m parts n → Leads l (.markup html :: parts) n
  | fragment {l m : TagLexer} {f : Fragment ω δ} {parts : List (DocumentPart ω δ)} :
      f.IsText → l.Admits → (l.state.inStartTag = true → f.dynamic = none) → Leads l parts m →
      Leads l (.fragment f :: parts) m

namespace Leads

variable {l m n : TagLexer} {parts parts' : List (DocumentPart ω δ)}

theorem append (h : Leads l parts m) (h' : Leads m parts' n) :
    Leads l (parts ++ parts') n := by
  induction h with
  | nil => exact h'
  | markup halike _ ih => exact .markup halike (ih h')
  | fragment htext hadmits htag _ ih => exact .fragment htext hadmits htag (ih h')

/-- Parts made for each member of a list lead back, if each of them do. -/
theorem flatMap {α : Type} {f : α → List (DocumentPart ω δ)} (h : ∀ a, Leads l (f a) l)
    (as : List α) : Leads l (as.flatMap f) l := by
  induction as with
  | nil => exact .nil
  | cons a as ih =>
    rw [List.flatMap_cons]
    exact (h a).append ih

/-- A text of the author that is escaped. -/
theorem text {s : String} (hl : l.Admits) (h : Leads l parts m) :
    Leads l (DocumentPart.text s :: parts) m :=
  .fragment (.inr ⟨s, rfl⟩) hl (fun _ => rfl) h

end Leads

theorem admits_inValueOf (name : String) : (inValueOf name).Admits := .inl (.inl rfl)

theorem admits_inBody : inBody.Admits := .inr ⟨rfl, rfl⟩

theorem leads_between {before after : String} {l : TagLexer} {f? : Option (Fragment ω δ)}
    (hbefore : (TagLexer.after {} (sourceBytes before)).Alike l) (hl : l.state.Steady)
    (hafter : (l.after (sourceBytes after)).Alike {}) (hf : ∀ f ∈ f?, f.IsText) :
    Leads {} (between before f? after) {} := by
  cases f? with
  | none => exact .nil
  | some f =>
    have htag : l.state.inStartTag = true → f.dynamic = none := by
      intro h
      cases hs : l.state <;> simp [hs, TagState.inStartTag, TagState.Steady] at h hl
    exact .markup hbefore (.fragment (hf f rfl) (.inl hl) htag (.markup hafter .nil))

theorem leads_metadata {name : String}
    (hname : (TagLexer.after {} (sourceBytes ("<meta name=\"" ++ name ++ "\" content=\""))).Alike
      (inValueOf "meta")) (content? : Option String) :
    Leads (ω := ω) (δ := δ) {} (DocumentPart.metadata name content?) {} := by
  cases content? with
  | none => exact .nil
  | some content =>
    exact .markup hname (.text (admits_inValueOf _) (.markup (by decide +kernel) .nil))

theorem leads_metadataParts (m : Metadata) : Leads (ω := ω) (δ := δ) {} m.parts {} := by
  unfold Metadata.parts
  repeat' apply Leads.append
  all_goals exact leads_metadata (by decide +kernel) _

theorem leads_link (l : Link) : Leads (ω := ω) (δ := δ) {} (link l) {} :=
  .markup (m := inValueOf "link") (by decide +kernel) <| .text (admits_inValueOf _) <|
    .markup (m := inValueOf "link") (by decide +kernel) <| .text (admits_inValueOf _) <|
      .markup (by decide +kernel) .nil

theorem leads_script (s : Script) : Leads (ω := ω) (δ := δ) {} (script s) {} := by
  have hend : ∀ deferred isModule : Bool,
      ((inValueOf "script").after (sourceBytes ("\"" ++ (if deferred then " defer" else "") ++
        (if isModule then " type=\"module\"" else "") ++ "></script>"))).Alike {} := by
    decide +kernel
  exact .markup (m := inValueOf "script") (by decide +kernel)
    (.text (admits_inValueOf _) (.markup (hend _ _) .nil))

theorem leads_head {h : Head ω δ} (htitle : ∀ f ∈ h.title, f.IsText)
    (hstyle : ∀ f ∈ h.style, f.IsText) : Leads {} h.parts {} :=
  ((((leads_between (l := {}) (by decide +kernel) trivial (by decide +kernel) htitle).append
    (leads_metadataParts _)).append (.flatMap leads_link _)).append
    (leads_between (l := inStyle) (by decide +kernel) trivial (by decide +kernel) hstyle)).append
    (.flatMap leads_script _)

/-- An attribute of the body, the first one or one behind another. -/
theorem leads_bodyAttribute {l : TagLexer}
    (hl : (l.after (sourceBytes " ")).Alike inBody) (pair : String × String) :
    Leads (ω := ω) (δ := δ) l (bodyAttribute pair) inBody :=
  .markup hl <| .text admits_inBody <| .markup (m := inValueOf "body") (by decide +kernel) <|
    .text (admits_inValueOf _) <| .markup (by decide +kernel) .nil

/-- The attributes of the body, if there are any, and the end of its start tag. -/
theorem leads_bodyAttributes (pairs : List (String × String)) :
    Leads (ω := ω) (δ := δ) behindBody (pairs.flatMap bodyAttribute ++ [markup ">"]) {} := by
  cases pairs with
  | nil => exact .markup (by decide +kernel) .nil
  | cons pair pairs =>
    rw [List.flatMap_cons, List.append_assoc]
    have hrest : Leads (ω := ω) (δ := δ) inBody (pairs.flatMap bodyAttribute) inBody :=
      .flatMap (leads_bodyAttribute (by decide +kernel)) pairs
    have hend : Leads (ω := ω) (δ := δ) inBody [markup ">"] {} := .markup (by decide +kernel) .nil
    exact (leads_bodyAttribute (by decide +kernel) pair).append (hrest.append hend)

/-- The title, style, `noscript` and body texts of the page are escaped text, or empty. They may
have callbacks. -/
structure TextOnly (d : Document ω δ) : Prop where
  title : ∀ f ∈ d.head.title, f.IsText
  style : ∀ f ∈ d.head.style, f.IsText
  noscript : ∀ f ∈ d.noscript, f.IsText
  body : ∀ f ∈ d.body, f.IsText

theorem leads_body {fs : List (Fragment ω δ)} (h : ∀ f ∈ fs, f.IsText) :
    Leads {} (fs.map DocumentPart.fragment) {} := by
  induction fs with
  | nil => exact .nil
  | cons f fs ih =>
    obtain ⟨hf, hfs⟩ := List.forall_mem_cons.mp h
    exact .fragment hf (.inl trivial) nofun (ih hfs)

/-- A page with escaped texts leads from text to text. -/
theorem leads_parts {d : Document ω δ} (h : d.TextOnly) : Leads {} d.parts {} := by
  have hfront : Leads (ω := ω) (δ := δ) {} [markup "<!DOCTYPE html>\n<html lang=\"",
      DocumentPart.text d.lang, markup "\"><head><meta charset=\"utf-8\">"] {} :=
    .markup (m := inValueOf "html") (by decide +kernel) <| .text (admits_inValueOf _) <|
      .markup (by decide +kernel) .nil
  have hbody : Leads (ω := ω) (δ := δ) {} [markup "</head><body"] behindBody :=
    .markup (by decide +kernel) .nil
  have hend : Leads (ω := ω) (δ := δ) {} [markup "</body></html>\n"] {} :=
    .markup (by decide +kernel) .nil
  have hnoscript : Leads {} (between "<noscript>" d.noscript "</noscript>") {} :=
    leads_between (l := {}) (by decide +kernel) trivial (by decide +kernel) h.noscript
  have hattributes := leads_bodyAttributes (ω := ω) (δ := δ) d.bodyAttributes
  have hall := ((((hfront.append (leads_head h.title h.style)).append hbody).append
    hattributes).append hnoscript).append (leads_body h.body) |>.append hend
  simpa only [parts, List.append_assoc] using hall

end Document

/-! ## 4. Passes that succeed -/

/-- A tag that belongs to no element of the table leaves an empty table empty. -/
theorem ElementTable.addTag_empty (around : Surroundings) (tag : Tag) :
    ElementTable.addTag {} around tag = ({}, none) := by
  cases tag with
  | closing name start stop => rfl
  | opening name selfClosing stop =>
    simp [addTag, openTag, OpenElement.countOpening]

/-- A reader that knows of no element follows the lexer and refuses nothing. -/
theorem TagReader.feed_of_untracked {r : TagReader} (h : r.table = {}) (around : Surroundings)
    (bytes : List UInt8) :
    r.feed around bytes = ({ lexer := r.lexer.after bytes, table := {} }, none) := by
  obtain ⟨l, table⟩ := r
  cases h
  induction bytes generalizing l with
  | nil => rfl
  | cons byte bytes ih =>
    have hstep : step { lexer := l, table := {} } around byte =
        ({ lexer := (l.step byte).1, table := {} }, none) := by
      unfold step
      simp only [ElementTable.addTag_empty]
      split
      · next hl => rw [hl]
      · next hl => rw [hl]
    rw [feed, hstep]
    exact ih _

/-- The literal text of the part. -/
def DocumentPart.html : DocumentPart ω δ → String
  | markup html => html
  | fragment f => f.html

/-- The number of literal bytes of the parts. -/
def Document.literalSize (parts : List (DocumentPart ω δ)) : Nat :=
  (parts.map fun p => p.html.utf8ByteSize).sum

theorem Document.literalSize_append (front back : List (DocumentPart ω δ)) :
    literalSize (front ++ back) = literalSize front + literalSize back := by
  rw [literalSize, List.map_append, List.sum_append]
  rfl

theorem Document.literalSize_cons (p : DocumentPart ω δ) (parts : List (DocumentPart ω δ)) :
    literalSize (p :: parts) = p.html.utf8ByteSize + literalSize parts :=
  List.sum_cons

namespace Assembly

open Document

/-- The assembly stands before the parts, of which the first fragment has the given number. Its
lexer is like `l`, and it knows of no element. -/
structure Standing (l : TagLexer) (number : Nat) (parts : List (DocumentPart ω δ))
    (a : Assembly ω δ) : Prop where
  untracked : a.reader.table = {}
  alike : a.reader.lexer.Alike l
  declarations : a.declarations = declarationsFrom number parts
  seen : ∀ name ∈ a.seen, ∃ i < number, name = markerName i
  openWrappers : a.openWrappers = []
  content : a.content = none

theorem addBytes_of_untracked {a : Assembly ω δ} (h : a.reader.table = {}) (bytes : List UInt8) :
    a.addBytes bytes =
      if bytes.length ≤ a.room then
        .ok { a with
          reader := { lexer := a.reader.lexer.after bytes, table := {} }
          html := a.html ++ bytes.toByteArray }
      else .error .tooLarge := by
  rw [addBytes_eq, TagReader.feed_of_untracked h]
  dsimp only
  split
  · next hlength => rw [List.take_of_length_le hlength]
  · rfl

namespace Standing

variable {l l' : TagLexer} {number : Nat} {parts : List (DocumentPart ω δ)} {a b : Assembly ω δ}

theorem initial (counts : MarkerCounts) (parts : List (DocumentPart ω δ)) :
    Standing {} 0 parts (Assembly.initial counts (declarationsFrom 0 parts)) :=
  ⟨rfl, ⟨rfl, fun _ => ⟨rfl, rfl⟩, fun _ => rfl⟩, rfl, nofun, rfl, rfl⟩

/-- Markup moves the lexer. -/
theorem markup {html : String} (h : Standing l number (.markup html :: parts) a)
    (hl : (l.after (sourceBytes html)).Alike l') (hroom : html.utf8ByteSize ≤ a.room) :
    ∃ b, (html.toList.map Piece.text).foldlM addPiece a = .ok b ∧ Standing l' number parts b ∧
      b.room = a.room - html.utf8ByteSize := by
  rw [foldlM_chars, ← sourceBytes_eq, addBytes_of_untracked h.untracked, length_sourceBytes,
    if_pos hroom]
  have hafter := (h.alike.after (sourceBytes html)).trans hl
  exact ⟨_, rfl, ⟨rfl, hafter, h.declarations, h.seen, h.openWrappers, h.content⟩,
    room_of_append rfl⟩

theorem markup_of_full {html : String} (h : Standing l number (.markup html :: parts) a)
    (hfull : a.room < html.utf8ByteSize) :
    (html.toList.map Piece.text).foldlM addPiece a = .error .tooLarge := by
  rw [foldlM_chars, ← sourceBytes_eq, addBytes_of_untracked h.untracked, length_sourceBytes,
    if_neg (Nat.not_le_of_lt hfull)]

section

variable {f : Fragment ω δ} {t : Token} (h : Standing l number (.fragment f :: parts) a)
  (hk : t.kind = .plain (markerName number))

include h hk

/-- A fragment finds its declaration, the static text of which is the HTML of the fragment. -/
theorem addPiece_eq : a.addPiece (.token t) =
    (addBytes
        { a with
          declarations := declarationsFrom (number + 1) parts
          seen := markerName number :: a.seen }
        (sourceBytes f.html) >>= fun b =>
      b.interrupt.plainKind (markerName number) >>= fun kind =>
        f.dynamic.elim (.ok b.interrupt) fun run =>
          b.interrupt.addCallback (markerName number) kind (.plain run)) := by
  have hunseen : markerName number ∉ a.seen := by
    intro hmem
    obtain ⟨i, hi, heq⟩ := h.seen _ hmem
    exact absurd (markerName_inj heq) (Nat.ne_of_gt hi)
  have htake : a.takeDeclaration (markerName number) =
      .ok ({ name := markerName number, staticText := some f.html,
             callback := f.dynamic.map Callback.plain },
        { a with
          declarations := declarationsFrom (number + 1) parts
          seen := markerName number :: a.seen }) := by
    simp [takeDeclaration, hunseen, h.declarations, declarationsFrom]
  show a.addToken t = _
  rw [addToken, hk]
  show (a.takeDeclaration (markerName number) >>= _) = _
  rw [htake]
  show (addBytes _ (sourceBytes f.html) >>= _) = _
  refine congrArg (_ >>= ·) (funext fun b => congrArg (_ >>= ·) (funext fun kind => ?_))
  cases f.dynamic <;> rfl

theorem fragment_of_full (hfull : a.room < f.html.utf8ByteSize) :
    a.addPiece (.token t) = .error .tooLarge := by
  have hbytes := addBytes_of_untracked
    (a := { a with
      declarations := declarationsFrom (number + 1) parts
      seen := markerName number :: a.seen }) h.untracked (sourceBytes f.html)
  rw [h.addPiece_eq hk, hbytes]
  exact congrArg (· >>= _) (if_neg (Nat.not_le_of_lt hfull))

/-- A fragment leaves the lexer where it was. -/
theorem fragment (htext : f.IsText) (hl : l.Admits)
    (htag : l.state.inStartTag = true → f.dynamic = none)
    (hroom : f.html.utf8ByteSize ≤ a.room) :
    ∃ b, a.addPiece (.token t) = .ok b ∧ Standing l (number + 1) parts b ∧
      b.room = a.room - f.html.utf8ByteSize := by
  -- the assembly behind the static text, once the lexer has met the marker
  let placed : Assembly ω δ :=
    { a with
      declarations := declarationsFrom (number + 1) parts
      seen := markerName number :: a.seen
      reader := { lexer := (a.reader.lexer.after (sourceBytes f.html)).interrupt, table := {} }
      html := a.html ++ (sourceBytes f.html).toByteArray }
  have halike : placed.reader.lexer.Alike l :=
    (TagLexer.alike_of_admits (h.alike.admits hl) htext.inert).trans h.alike
  have hplaced : Standing l (number + 1) parts placed := by
    refine ⟨rfl, halike, rfl, fun name hname => ?_, h.openWrappers, h.content⟩
    rcases List.mem_cons.mp hname with rfl | hname
    · exact ⟨number, Nat.lt_succ_self number, rfl⟩
    · obtain ⟨i, hi, heq⟩ := h.seen name hname
      exact ⟨i, Nat.lt_succ_of_lt hi, heq⟩
  have hleft : placed.room = a.room - f.html.utf8ByteSize := room_of_append rfl
  have hadd : a.addPiece (.token t) =
      (placed.plainKind (markerName number) >>= fun kind =>
        f.dynamic.elim (.ok placed) fun run =>
          placed.addCallback (markerName number) kind (.plain run)) := by
    have hbytes := addBytes_of_untracked
      (a := { a with
        declarations := declarationsFrom (number + 1) parts
        seen := markerName number :: a.seen }) h.untracked (sourceBytes f.html)
    rw [h.addPiece_eq hk, hbytes]
    exact congrArg (· >>= _) (if_pos hroom)
  rw [hadd]
  cases hin : l.state.inStartTag with
  | true =>
    have hkind : placed.plainKind (markerName number) = .ok .attributes := by
      rw [plainKind, TagReader.inStartTag, halike.state, hin, if_pos rfl]
    rw [hkind, htag hin]
    exact ⟨placed, rfl, hplaced, hleft⟩
  | false =>
    have hend : l.state.isInEndTag = false := by
      rcases hl with hsteady | ⟨htag, -⟩
      · cases hs : l.state <;> simp [hs, TagState.isInEndTag, TagState.Steady] at hsteady ⊢
      · rw [htag]
        rfl
    have hkind : placed.plainKind (markerName number) = .ok .plain := by
      simp [plainKind, TagReader.inStartTag, TagReader.inEndTag, halike.state, hin, hend]
    rw [hkind]
    cases f.dynamic with
    | none => exact ⟨placed, rfl, hplaced, hleft⟩
    | some run =>
      exact ⟨placed.addMarker (markerName number) (.plain run), rfl,
        ⟨hplaced.untracked, hplaced.alike, hplaced.declarations, hplaced.seen,
          hplaced.openWrappers, hplaced.content⟩, hleft⟩

end

end Standing

/-- Parts that lead somewhere are compiled, if there is room for them. -/
theorem exists_ok_of_leads {l l' : TagLexer} {number : Nat} {parts : List (DocumentPart ω δ)}
    {pieces : List Piece} (hs : Splits number parts pieces) (hl : Leads l parts l')
    {a : Assembly ω δ} (h : Standing l number parts a) (hroom : literalSize parts ≤ a.room) :
    ∃ b last, pieces.foldlM addPiece a = .ok b ∧ Standing l' last [] b := by
  induction hs generalizing l a with
  | nil =>
    cases hl
    exact ⟨a, _, rfl, h⟩
  | markup _ ih =>
    cases hl with
    | markup halike hrest =>
      rw [literalSize_cons] at hroom
      obtain ⟨a', ha', h', hleft⟩ := h.markup halike (Nat.le_trans (Nat.le_add_right _ _) hroom)
      obtain ⟨b, last, hb, hlast⟩ := ih hrest h' (hleft ▸ Nat.le_sub_of_add_le' hroom)
      refine ⟨b, last, ?_, hlast⟩
      rw [List.foldlM_append, ha']
      exact hb
  | fragment hk _ ih =>
    cases hl with
    | fragment htext hadmits htag hrest =>
      rw [literalSize_cons] at hroom
      obtain ⟨a', ha', h', hleft⟩ := h.fragment hk htext hadmits htag
        (Nat.le_trans (Nat.le_add_right _ _) hroom)
      obtain ⟨b, last, hb, hlast⟩ := ih hrest h' (hleft ▸ Nat.le_sub_of_add_le' hroom)
      refine ⟨b, last, ?_, hlast⟩
      rw [List.foldlM_cons, ha']
      exact hb

/-- If there is no room for all of them, they are refused for that. -/
theorem tooLarge_of_leads {l l' : TagLexer} {number : Nat} {parts : List (DocumentPart ω δ)}
    {pieces : List Piece} (hs : Splits number parts pieces) (hl : Leads l parts l')
    {a : Assembly ω δ} (h : Standing l number parts a) (hfull : a.room < literalSize parts) :
    pieces.foldlM addPiece a = .error .tooLarge := by
  induction hs generalizing l a with
  | nil => exact absurd hfull (Nat.not_lt_zero _)
  | @markup number html parts pieces _ ih =>
    cases hl with
    | markup halike hrest =>
      rw [literalSize_cons] at hfull
      rw [List.foldlM_append]
      rcases Nat.lt_or_ge a.room html.utf8ByteSize with hlt | hroom
      · rw [h.markup_of_full hlt]
        rfl
      · obtain ⟨a', ha', h', hleft⟩ := h.markup halike hroom
        rw [ha']
        exact ih hrest h' (hleft ▸ Nat.sub_lt_left_of_lt_add hroom hfull)
  | @fragment number f t parts pieces hk _ ih =>
    cases hl with
    | fragment htext hadmits htag hrest =>
      rw [literalSize_cons] at hfull
      rw [List.foldlM_cons]
      rcases Nat.lt_or_ge a.room f.html.utf8ByteSize with hlt | hroom
      · rw [h.fragment_of_full hk hlt]
        rfl
      · obtain ⟨a', ha', h', hleft⟩ := h.fragment hk htext hadmits htag hroom
        rw [ha']
        exact ih hrest h' (hleft ▸ Nat.sub_lt_left_of_lt_add hroom hfull)

/-- Behind the last part nothing is left over. -/
theorem Standing.finish_eq {l : TagLexer} {number : Nat} {a : Assembly ω δ}
    (h : Standing l number [] a) : a.finish = .ok a.template := by
  have hreader : a.reader.finish = .ok a.reader.table.elements := by
    rw [TagReader.finish, h.untracked, ElementTable.unclosed?]
    cases a.reader.insideTag <;> rfl
  have hdeclarations : a.declarations = [] := h.declarations
  simp only [finish, h.openWrappers, hreader, hdeclarations]
  rfl

end Assembly

/-! ## 5. Pages with escaped texts -/

namespace Document

theorem names_declarationsFrom (number : Nat) (parts : List (DocumentPart ω δ)) :
    (declarationsFrom number parts).map Declaration.name =
      (List.range' number (declarationsFrom number parts).length).map markerName := by
  induction parts generalizing number with
  | nil => rfl
  | cons p parts ih =>
    cases p with
    | markup html => exact ih number
    | fragment f =>
      rw [declarationsFrom, List.map_cons, ih, List.length_cons, List.range'_succ, List.map_cons]

/-- No two names are the same. -/
theorem nodup_declarationsFrom (number : Nat) (parts : List (DocumentPart ω δ)) :
    ((declarationsFrom number parts).map Declaration.name).Nodup := by
  rw [names_declarationsFrom]
  exact List.Nodup.map (fun _ _ h => markerName_inj h) List.nodup_range'

/-- A page whose texts try to end the tags and elements that they stand in. -/
def endingPage : Document Unit String :=
  { lang := "\"><"
    head :=
      { title := some ((Fragment.ofText "</title>").andThen fun text => Render.write text)
        metadata := { keywords := ["/", "'>"], themeColor := some "<!--" }
        links := [{ rel := "", href := "/" }]
        style := some ((Fragment.ofText "</style>").andThen fun _ => pure ())
        scripts := [{ src := "\" /", deferred := true }] }
    bodyAttributes := [("", "/"), ("/", "\""), ("a='>", "</body>")]
    noscript := some {}
    body := [.ofText "<p ", .ofCallback fun _ => Render.halt, .ofText "</p"] }

theorem textOnly_endingPage : endingPage.TextOnly where
  title := by
    rintro f ⟨⟩
    exact .inr ⟨_, rfl⟩
  style := by
    rintro f ⟨⟩
    exact .inr ⟨_, rfl⟩
  noscript := by
    rintro f ⟨⟩
    exact .inl rfl
  body := by
    intro f hf
    simp only [endingPage, List.mem_cons, List.not_mem_nil, or_false] at hf
    rcases hf with rfl | rfl | rfl
    · exact .inr ⟨_, rfl⟩
    · exact .inl rfl
    · exact .inr ⟨_, rfl⟩

/-- A page whose body is one letter, over and over. -/
def longPage (count : Nat) : Document Unit String :=
  { body := List.replicate count (.ofText "x") }

theorem textOnly_longPage (count : Nat) : (longPage count).TextOnly where
  title := nofun
  style := nofun
  noscript := nofun
  body := by
    intro f hf
    rw [List.eq_of_mem_replicate hf]
    exact .inr ⟨"x", rfl⟩

theorem lt_literalSize_longPage (count : Nat) : count < literalSize (longPage count).parts := by
  have hletter : (DocumentPart.text "x" : DocumentPart Unit String).html.utf8ByteSize = 1 := by
    decide +kernel
  have hbody : literalSize ((longPage count).body.map DocumentPart.fragment) = count := by
    rw [literalSize, longPage, List.map_replicate, List.map_replicate, List.sum_replicate_nat]
    exact (congrArg (count * ·) hletter).trans (Nat.mul_one count)
  have hend : 0 < literalSize [(.markup "</body></html>\n" : DocumentPart Unit String)] := by
    decide +kernel
  rw [parts, literalSize_append, literalSize_append, hbody]
  omega

end Document

end HtmlTemplate
