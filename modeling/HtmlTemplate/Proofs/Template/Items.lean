import HtmlTemplate.Proofs.Template.Compiled
import HtmlTemplate.Proofs.Template.Recounting

/-!
# The items of a source

`items` takes a source apart into literal bytes and places of tokens, from its pieces and
declarations alone, without compiling it. So the events of a source are known whether it
compiles or not, and what an assembly has found can be compared with them.

Results:
1. `items`, `SourceEvent.ofSource`: the items and events of a source.
2. `Assembly.Recounted`: an assembly has met the events of its items, and its literal bytes
   are those of the items. Every piece keeps it (`Recounted.addPiece`,
   `recounted_of_compile?`).
-/

namespace HtmlTemplate

variable {ω δ : Type}

/-! ## 1. Items -/

/-- The literal bytes of the static text of a declaration. -/
def Declaration.bytes (d : Declaration ω δ) : List UInt8 := d.staticHtml.toUTF8.data.toList

/-- The items of a token, which uses up the first of the declarations if it is named. -/
def Token.items (declarations : List (Declaration ω δ)) (t : Token) : List Item :=
  match t.kind, declarations with
  | .content, _ => [.content]
  | .wrapperEnd, _ => [.closeWrapper]
  | .wrapperStart _, d :: _ => d.bytes.map .byte ++ [.openWrapper]
  | .plain _, d :: _ => d.bytes.map .byte ++ [.plain d.callback.isSome]
  | .wrapperStart _, [] => []
  | .plain _, [] => []

def Piece.items (declarations : List (Declaration ω δ)) : Piece → List Item
  | .text c => (String.utf8EncodeChar c).map .byte
  | .token t => t.items declarations

/-- The declarations that a piece leaves. -/
def Piece.unused (declarations : List (Declaration ω δ)) : Piece → List (Declaration ω δ)
  | .text _ => declarations
  | .token t => if t.kind.isNamed then declarations.tail else declarations

/-- The items of pieces with their declarations. -/
def items : List Piece → List (Declaration ω δ) → List Item
  | [], _ => []
  | p :: pieces, declarations => p.items declarations ++ items pieces (p.unused declarations)

/-- The tags and wrappers of a source. -/
def SourceEvent.ofSource (source : String) (declarations : List (Declaration ω δ)) :
    List SourceEvent :=
  SourceEvent.ofItems (items (pieces source) declarations)

theorem filterMap_byte? (bytes : List UInt8) :
    (bytes.map Item.byte).filterMap Item.byte? = bytes := by
  rw [List.filterMap_map]
  exact List.filterMap_some

/-! ## 2. Assemblies -/

namespace Assembly

variable {a b : Assembly ω δ} {s : Scan}

/-- The assembly has met the events of the scan, and both have read the same bytes. -/
structure Recounted (a : Assembly ω δ) (s : Scan) : Prop extends Consistent a where
  recounts : a.reader.Recounts s a.openWrappers.length
  right : s.Right a.html.data.toList
  /-- The elements stand in the order of their start tags. -/
  increasing : a.reader.table.starts.Pairwise (· < ·)

namespace Recounted

theorem initial (counts : MarkerCounts) (declarations : List (Declaration ω δ)) :
    Recounted (Assembly.initial counts declarations) {} :=
  { Consistent.initial counts declarations with
    recounts := .initial
    right := .initial
    increasing := .nil }

/-- The scan goes on as the assembly does, and reads no byte. -/
theorem of_edit (h : Recounted a s) (he : Edit a b) (i : Item) (hi : i.byte? = none)
    (hr : b.reader.Recounts (s.step i) b.openWrappers.length) (hh : b.html = a.html)
    (hs : b.reader.table.starts.Pairwise (· < ·)) : Recounted b (s.step i) := by
  refine { Consistent.edit he h.toConsistent with recounts := hr, right := ?_, increasing := hs }
  have hright := h.right.step i
  rw [hi, Option.toList_none, List.append_nil] at hright
  rwa [hh]

/-- Literal bytes are read. -/
theorem feed (h : Recounted a s) {bytes : List UInt8} {r : TagReader}
    (hr : a.reader.feed a.surroundings bytes = (r, none)) :
    Recounted { a with reader := r, html := a.html ++ bytes.toByteArray }
      ((bytes.map Item.byte).foldl Scan.step s) := by
  refine { Consistent.edit (.bytes hr) h.toConsistent with
    recounts := ?_
    right := ?_
    increasing := ?_ }
  · exact h.recounts.feed h.tracks h.opened hr
  · have hright := h.right.foldl (bytes.map Item.byte)
    rw [filterMap_byte?] at hright
    simpa using hright
  · have hstarts := a.reader.starts_feed a.surroundings bytes
    rw [hr] at hstarts
    exact hstarts ▸ h.increasing

theorem addContent (h : Recounted a s) {start : Nat} (hb : a.addContent start = .ok b) :
    Recounted b (s.step .content) := by
  have he := edit_of_addContent hb
  obtain ⟨-, -, rfl⟩ := addContent_eq_ok hb
  refine h.of_edit he .content rfl h.recounts.interrupt.markContent rfl ?_
  exact a.reader.table.starts_markContent ▸ h.increasing

theorem addWrapperEnd (h : Recounted a s) {start : Nat} (hb : a.addWrapperEnd start = .ok b) :
    Recounted b (s.step .closeWrapper) := by
  have he := edit_of_addWrapperEnd hb
  obtain ⟨wrapper, rest, ho, -, hcross, hb⟩ := addWrapperEnd_eq_ok hb
  have hr := h.recounts.interrupt
  rw [ho, List.length_cons] at hr
  have hclosed := hr.closeWrapper hcross
  cases wrapper with
  | none =>
    subst hb
    exact h.of_edit he .closeWrapper rfl hclosed rfl h.increasing
  | some i =>
    subst hb
    exact h.of_edit he .closeWrapper rfl hclosed rfl h.increasing

/-- The start tag of an element in the table but for the current one has been met. -/
theorem startTag_mem (h : Recounted a s) {i : Nat} {e : Element}
    (he : a.reader.table.elements[i]? = some e) (hi : a.reader.table.current ≠ some i) :
    ∃ selfClosing, e.startTag selfClosing ∈ s.events := by
  rcases h.recounts.met i e he with hc | ⟨p, hp, rfl⟩ | hmet
  · exact absurd hc hi
  · obtain ⟨e', front, inside, he', -, hevents, -⟩ := h.recounts.pending p hp
    rw [he] at he'
    cases he'
    exact ⟨false, by simp [hevents]⟩
  · exact hmet.startTag_mem

/-- The elements in the table but for the current one have been opened before. -/
theorem openStart_lt (h : Recounted a s) (hs : a.reader.lexer.state.stage ≠ .outside) {i : Nat}
    {e : Element} (he : a.reader.table.elements[i]? = some e)
    (hi : a.reader.table.current ≠ some i) : e.openStart < a.reader.lexer.tagStart := by
  obtain ⟨selfClosing, htag⟩ := h.startTag_mem he hi
  have hlexer := h.recounts.lexer_eq
  have hspan : (e.openStart, e.openEnd) ∈ s.events.filterMap SourceEvent.span? :=
    List.mem_filterMap.mpr ⟨_, htag, rfl⟩
  have hbehind := (h.right.behind _ hspan).2
  rw [hlexer] at hbehind
  exact Nat.lt_of_lt_of_le (h.right.spelled _ htag).1.1 (hbehind hs)

/-- A new element stands behind those in the table. -/
theorem increasing_attach (h : Recounted a s) (hin : a.reader.interrupt.inStartTag = true) :
    a.reader.interrupt.attachMarker.1.table.starts.Pairwise (· < ·) := by
  have hs := (TagState.stage_interrupted_eq_opening _).mp (TagReader.stage_of_inStartTag hin)
  rcases a.reader.interrupt.starts_attachMarker with heq | ⟨hnone, heq⟩
  · exact heq ▸ h.increasing
  · rw [heq]
    refine List.pairwise_append.mpr ⟨h.increasing, List.pairwise_singleton _ _, ?_⟩
    intro start hstart tagStart htagStart
    rw [List.mem_singleton.mp htagStart]
    obtain ⟨e, hmem, rfl⟩ := List.mem_map.mp hstart
    obtain ⟨i, hlt, rfl⟩ := Array.mem_iff_getElem.mp (Array.mem_toList_iff.mp hmem)
    refine h.openStart_lt (by simp [hs]) (Array.getElem?_eq_getElem hlt) ?_
    rw [show a.reader.table.current = none from hnone]
    exact fun hc => by cases hc

/-- A named token is placed, once its static text has been added. -/
theorem placed (h : Recounted a s) {d : Declaration ω δ} {isWrapper : Bool}
    (hp : Placed a d isWrapper b) :
    Recounted b (s.step (if isWrapper then .openWrapper else .plain d.callback.isSome)) := by
  have hi := h.recounts.interrupt
  -- The scan knows as the reader does whether the token stands in a start tag.
  have hplain : ∀ kept, s.step (.plain kept) =
      { s.interrupt with carries := s.carries || (kept && a.reader.interrupt.inStartTag) } := by
    intro kept
    show ({ s.interrupt with carries := _ || (_ && s.lexer.interrupt.state.inStartTag) } : Scan) = _
    rw [h.recounts.lexer_eq]
    rfl
  cases hp with
  | plain run hc hin hend =>
    refine h.of_edit (.placed (.plain run hc hin hend)) (.plain d.callback.isSome) rfl ?_ rfl
      h.increasing
    rw [hplain, hin, Bool.and_false, Bool.or_false]
    exact hi
  | attributes run hc hin =>
    refine h.of_edit (.placed (.attributes run hc hin)) (.plain d.callback.isSome) rfl ?_ rfl
      (h.increasing_attach hin)
    rw [hplain, hin, hc, Option.isSome_some, Bool.and_true, Bool.or_true]
    exact hi.attach (TagReader.behindName_of_inStartTag hin)
  | folded hc hend =>
    refine h.of_edit (.placed (.folded hc hend)) (.plain d.callback.isSome) rfl ?_ rfl
      h.increasing
    rw [hplain, hc, Option.isSome_none, Bool.false_and, Bool.or_false]
    exact hi
  | wrapper run hc hin =>
    exact h.of_edit (.placed (.wrapper run hc hin)) .openWrapper rfl hi.openWrapper rfl
      h.increasing
  | foldedWrapper hc hin =>
    exact h.of_edit (.placed (.foldedWrapper hc hin)) .openWrapper rfl hi.openWrapper rfl
      h.increasing

/-- The next declaration is used up. -/
theorem declaration (h : Recounted a s) (rest : List (Declaration ω δ)) (seen : List String) :
    Recounted { a with declarations := rest, seen := seen } s :=
  { Consistent.edit (.declaration rest seen) h.toConsistent with
    recounts := h.recounts
    right := h.right
    increasing := h.increasing }

theorem addNamed (h : Recounted a s) {name : String} {isWrapper : Bool} {start : Nat}
    (hb : a.addNamed name isWrapper start = .ok b) :
    ∃ d rest, a.declarations = d :: rest ∧ b.declarations = rest ∧
      Recounted b ((d.bytes.map Item.byte ++
        [if isWrapper then Item.openWrapper else Item.plain d.callback.isSome]).foldl
          Scan.step s) := by
  obtain ⟨d, rest, r, hds, -, -, hr, hp⟩ := addNamed_eq_ok hb
  refine ⟨d, rest, hds, ?_, ?_⟩
  · cases hp <;> rfl
  · have hbytes := (h.declaration rest (name :: a.seen)).feed hr
    rw [toByteArray_toList] at hbytes
    rw [List.foldl_append]
    exact hbytes.placed hp

theorem addPiece (h : Recounted a s) {p : Piece} (hb : a.addPiece p = .ok b) :
    b.declarations = p.unused a.declarations ∧
      Recounted b ((p.items a.declarations).foldl Scan.step s) := by
  cases p with
  | text c =>
    obtain ⟨r, hr, rfl⟩ := addBytes_eq_ok hb
    exact ⟨rfl, h.feed hr⟩
  | token t =>
    obtain ⟨kind, start, stop⟩ := t
    cases kind with
    | content =>
      refine ⟨?_, h.addContent hb⟩
      obtain ⟨-, -, rfl⟩ := addContent_eq_ok hb
      rfl
    | wrapperEnd =>
      refine ⟨?_, h.addWrapperEnd hb⟩
      obtain ⟨opening, rest, -, -, -, rfl⟩ := addWrapperEnd_eq_ok hb
      cases opening <;> rfl
    | wrapperStart name =>
      obtain ⟨d, rest, hds, hrest, hnext⟩ := h.addNamed hb
      simp only [Piece.unused, Piece.items, Token.items, hds]
      exact ⟨hrest, hnext⟩
    | plain name =>
      obtain ⟨d, rest, hds, hrest, hnext⟩ := h.addNamed hb
      simp only [Piece.unused, Piece.items, Token.items, hds]
      exact ⟨hrest, hnext⟩

theorem of_foldlM {pieces : List Piece} (h : Recounted a s)
    (hb : pieces.foldlM Assembly.addPiece a = .ok b) :
    b.declarations = pieces.foldl Piece.unused a.declarations ∧
      Recounted b ((items pieces a.declarations).foldl Scan.step s) := by
  induction pieces generalizing a s with
  | nil =>
    cases hb
    exact ⟨rfl, h⟩
  | cons p pieces ih =>
    obtain ⟨a', hp, hrest⟩ := exists_ok_of_bind hb
    obtain ⟨hunused, hnext⟩ := h.addPiece hp
    rw [items, List.foldl_append, List.foldl_cons, ← hunused]
    exact ih hnext hrest

end Recounted

/-- A compiled template has met the events of its source. -/
theorem recounted_of_compile? {source : String} {declarations : List (Declaration ω δ)}
    {t : Template ω δ} (h : compile? source declarations = .ok (a, t)) :
    Recounted a ((items (pieces source) declarations).foldl Scan.step {}) := by
  obtain ⟨counts, hfold, -⟩ := compile?_eq_ok h
  exact ((Recounted.initial counts declarations).of_foldlM hfold).2

end Assembly

end HtmlTemplate
