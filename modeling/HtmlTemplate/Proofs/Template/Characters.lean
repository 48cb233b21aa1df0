import HtmlTemplate.Proofs.Template.Literals
import HtmlTemplate.Proofs.Text.Boundaries

/-!
# Where a template is cut

The literal bytes of a template are cut at markers, at the tags of elements, and at the content
marker, all by offsets that are counted in bytes. None of these offsets splits a character: a
marker stands behind literal text as a whole, and a tag begins with `<` and ends with `>`.

Results:
1. `onBoundary_literalThrough`: the text up to a token ends on a boundary.
2. `Element.Fits.onBoundaries`: so do the tags of an element begin and end.
3. `Component.onBoundaries_of_compile`, `Wrapper.onBoundaries_of_compile`: all places of a compiled
   template are on boundaries.
-/

namespace HtmlTemplate

variable {ω δ : Type}

/-! ## 1. Statements -/

/-- The tags of the element begin and end on boundaries. -/
structure Element.OnBoundaries (e : Element) (html : ByteArray) : Prop where
  openStart : OnBoundary html e.openStart
  openEnd : OnBoundary html e.openEnd
  closeStart : OnBoundary html e.closeStart
  closeEnd : OnBoundary html e.closeEnd

/-- The literal bytes are text, and no marker or tag splits a character. -/
structure Template.OnBoundaries (t : Template ω δ) : Prop where
  html : t.html.IsValidUTF8
  marker : ∀ (i : Nat) (m : Marker ω δ), t.markers[i]? = some m → OnBoundary t.html m.position
  element : ∀ (i : Nat) (e : Element), t.elements[i]? = some e → e.OnBoundaries t.html

/-- Nor does the place where the component begins, or the one where it ends. -/
structure Component.OnBoundaries (c : Component ω δ) : Prop extends c.template.OnBoundaries where
  entry : OnBoundary c.template.html c.entry.offset
  exit : OnBoundary c.template.html c.exit.offset

/-- Nor does the content marker. -/
structure Wrapper.OnBoundaries (w : Wrapper ω δ) : Prop extends w.template.OnBoundaries where
  content : OnBoundary w.template.html w.content.offset

theorem Wrapper.OnBoundaries.preContent {w : Wrapper ω δ} (h : w.OnBoundaries) :
    w.preContent.OnBoundaries :=
  { h.toOnBoundaries with entry := .zero _, exit := h.content }

theorem Wrapper.OnBoundaries.postContent {w : Wrapper ω δ} (h : w.OnBoundaries) :
    w.postContent.OnBoundaries :=
  { h.toOnBoundaries with entry := h.content, exit := .size h.html }

/-! ## 2. The literal text -/

variable {source : String} {declarations : List (Declaration ω δ)}

theorem isValidUTF8_replacement (t : Token) :
    (t.replacement declarations).toByteArray.IsValidUTF8 := by
  unfold Token.replacement
  split
  · next d _ =>
    rw [Declaration.bytes, Assembly.toByteArray_toList]
    exact d.staticHtml.isValidUTF8
  · exact ByteArray.isValidUTF8_empty

theorem isValidUTF8_literal (pieces : List Piece) :
    (pieces.flatMap (Piece.literal declarations)).toByteArray.IsValidUTF8 := by
  induction pieces with
  | nil => exact ByteArray.isValidUTF8_empty
  | cons p pieces ih =>
    rw [List.flatMap_cons, List.toByteArray_append]
    refine ByteArray.IsValidUTF8.append ?_ ih
    cases p with
    | text c => exact Char.isValidUTF8_toByteArray_utf8EncodeChar
    | token t => exact isValidUTF8_replacement t

theorem isValidUTF8_literalText (source : String) (declarations : List (Declaration ω δ)) :
    (literalText source declarations).toByteArray.IsValidUTF8 := by
  rw [literalText_eq]
  exact isValidUTF8_literal _

/-- The literal text up to and including a token ends on a boundary. -/
theorem onBoundary_literalThrough {k : Nat} {t : Token}
    (h : (Token.ofSource source)[k]? = some t) :
    OnBoundary (literalText source declarations).toByteArray
      (literalThrough source declarations (k + 1)).length := by
  obtain ⟨front, back, hpieces, rfl⟩ := exists_split_of_token h
  rw [literalThrough_eq hpieces, literalText_eq, hpieces, List.append_cons, List.flatMap_append,
    List.toByteArray_append, ← List.size_toByteArray]
  exact .of_append (isValidUTF8_literal _) _

/-! ## 3. Tags -/

/-- An ASCII byte of the literal bytes has boundaries around it. -/
theorem onBoundary_of_byte {t : Template ω δ} {offset : Nat} {byte : UInt8}
    (ht : t.html.IsValidUTF8) (h : t.bytes[offset]? = some byte) (hascii : byte < 128) :
    OnBoundary t.html offset ∧ OnBoundary t.html (offset + 1) := by
  obtain ⟨hlt, rfl⟩ := List.getElem?_eq_some_iff.mp h
  exact onBoundary_of_ascii ht hlt hascii

theorem Element.Fits.onBoundaries {e : Element} {t : Template ω δ} {events : List SourceEvent}
    (h : e.Fits t events) (ht : t.html.IsValidUTF8) : e.OnBoundaries t.html := by
  have hopens := onBoundary_of_byte ht h.openStart_byte (by decide)
  have hcloses : ∀ stop, 0 < stop → t.bytes[stop - 1]? = some '>'.toUInt8 →
      OnBoundary t.html stop := by
    intro stop hpos hbyte
    have hbehind := (onBoundary_of_byte ht hbyte (by decide)).2
    rwa [Nat.sub_add_cancel hpos] at hbehind
  have hpos : 0 < e.openEnd := Nat.zero_lt_of_lt h.openStart_lt
  have hopenEnd := hcloses e.openEnd hpos h.openEnd_byte
  by_cases halone : e.ClosesItself events
  · obtain ⟨hcloseStart, hcloseEnd⟩ := h.alone halone
    exact ⟨hopens.1, hopenEnd, hcloseStart ▸ hopenEnd, hcloseEnd ▸ hopenEnd⟩
  · obtain ⟨-, hbegins, hcloseEnd⟩ := h.endTag halone
    have hle : 0 < e.closeEnd :=
      Nat.lt_of_lt_of_le hpos (Nat.le_trans h.openEnd_le h.closeStart_le)
    exact ⟨hopens.1, hopenEnd, (onBoundary_of_byte ht hbegins.getElem? (by decide)).1,
      hcloses e.closeEnd hle hcloseEnd⟩

/-! ## 4. Compiled templates -/

theorem Template.Spells.html_eq {t : Template ω δ} (h : t.Spells source declarations) :
    t.html = (literalText source declarations).toByteArray := by
  rw [← h.bytes_eq, Template.bytes, Assembly.toByteArray_toList]

theorem Assembly.onBoundaries_of_compile? {a : Assembly ω δ} {t : Template ω δ}
    (h : compile? source declarations = .ok (a, t)) : t.OnBoundaries := by
  have hspells := spells_of_compile? h
  have hhtml : t.html.IsValidUTF8 := hspells.html_eq ▸ isValidUTF8_literalText _ _
  refine ⟨hhtml, fun i m hm => ?_, fun i e he =>
    ((elementsFit_of_compile? h).fits i e he).onBoundaries hhtml⟩
  obtain ⟨hlength, hleft⟩ := List.forall₂_iff_get.mp hspells.markers
  obtain ⟨hi, hm⟩ := List.getElem?_eq_some_iff.mp (Array.getElem?_toList.trans hm)
  have hleft : LeftBy source declarations _ t.markers.toList[i] := hleft i (hlength ▸ hi) hi
  rw [hm] at hleft
  obtain ⟨tok, htok, -⟩ := hleft.token
  rw [hspells.html_eq, hleft.position_eq]
  exact onBoundary_literalThrough htok

theorem Component.onBoundaries_of_compile {c : Component ω δ}
    (h : Component.compile source declarations = .ok c) : c.OnBoundaries := by
  obtain ⟨a, t, ht, -, rfl⟩ := Component.compile_eq_ok h
  have hwhole := Assembly.onBoundaries_of_compile? ht
  exact { hwhole with entry := .zero _, exit := .size hwhole.html }

theorem Wrapper.onBoundaries_of_compile {w : Wrapper ω δ}
    (h : Wrapper.compile source declarations = .ok w) : w.OnBoundaries := by
  obtain ⟨a, t, content, ht, hcontent, rfl⟩ := Wrapper.compile_eq_ok h
  obtain ⟨k, tok, htok, -, hoffset, -⟩ := Assembly.leftByContent_of_compile? ht hcontent
  refine { Assembly.onBoundaries_of_compile? ht with content := ?_ }
  show OnBoundary t.html content.offset
  rw [hoffset, (Assembly.spells_of_compile? ht).html_eq]
  exact onBoundary_literalThrough htok

end HtmlTemplate
