import HtmlTemplate.Proofs.Template.Parts

/-!
# Elements around the content marker

Rendering asks an element whether it holds the content marker (`containsContent`), which
was noted when the content marker was met. This module says what that means for the
literal bytes: the content marker stands between the start tag and the end tag.

Results:
1. `TagReader.Enclosing`: an element that holds the content marker waits for its end tag,
   or has one. Every edit of an assembly keeps it.
2. `Wrapper.containsContent_iff_encloses`: an element of a compiled wrapper holds the
   content marker exactly if it stands around it.
-/

namespace HtmlTemplate

variable {ω δ : Type}

/-- The place stands between the tags of the element. -/
def Element.Encloses (e : Element) (x : Place) : Prop :=
  e.openEnd ≤ x.offset ∧ x.offset < e.closeEnd

/-! ## 1. Tag readers -/

/-- An element that holds the content marker waits for its end tag, or has one. -/
def TagReader.Enclosing (r : TagReader) : Prop :=
  ∀ (index : Nat) (e : Element), r.table.elements[index]? = some e → e.containsContent = true →
    index ∈ r.table.pending.map OpenElement.element ∨ e.closeStart < e.closeEnd

namespace TagReader.Enclosing

variable {r r' : TagReader} {markers : Array (Marker ω δ)} {opened : List (Option Nat)}
  {content? : Option Place}

theorem congr (h : r.Enclosing) (ht : r'.table = r.table) : r'.Enclosing := by
  unfold Enclosing
  rw [ht]
  exact h

theorem initial : ({} : TagReader).Enclosing := fun _ _ he => by simp at he

theorem openTag (h : r.Enclosing) (ht : r.Tracks markers opened content?) {l : TagLexer}
    (around : Surroundings) (name : TagName) (selfClosing : Bool) (stop : Nat) :
    TagReader.Enclosing
      { lexer := l, table := r.table.openTag around name selfClosing stop } := by
  intro index e he hc
  unfold ElementTable.openTag at he ⊢
  cases hi : r.table.current with
  | none =>
    simp only [hi] at he ⊢
    refine (h index e he hc).imp_left fun hp => ?_
    split
    · exact hp
    · rwa [OpenElement.map_element_countOpening]
  | some current =>
    -- The element whose start tag ends does not hold the content marker.
    obtain ⟨-, -, e₀, he₀, -, hc₀⟩ := ht.current current hi
    have hne : current ≠ index := by
      rintro rfl
      simp only [hi] at he
      split at he <;> simp only [Array.getElem?_modify, if_pos, he₀] at he <;> cases he <;>
        exact absurd hc (by simp [Element.endOpen, Element.endClose, hc₀])
    simp only [hi] at he ⊢
    cases hself : selfClosing || Markup.isVoid name with
    | true =>
      simp only [hself, if_true, Array.getElem?_modify, if_neg hne] at he ⊢
      exact h index e he hc
    | false =>
      simp only [hself, Bool.false_eq_true, if_false, Array.getElem?_modify, if_neg hne] at he ⊢
      refine (h index e he hc).imp_left fun hp => ?_
      rw [List.map_append, OpenElement.map_element_countOpening]
      exact List.mem_append_left _ hp

theorem closeTag (h : r.Enclosing) {l : TagLexer} {around : Surroundings} {name : TagName}
    {start stop : Nat} {table : ElementTable} (hlt : start < stop)
    (ht : r.table.closeTag around name start stop = (table, none)) :
    { lexer := l, table := table : TagReader }.Enclosing := by
  obtain ⟨-, hpending, hcrossed, helem⟩ := ElementTable.closeTag_eq ht
  intro index e he hc
  simp only at he ⊢
  rw [helem] at he
  split at he
  · obtain ⟨e₀, -, rfl⟩ := Option.map_eq_some_iff.mp he
    exact .inr hlt
  · next hopen =>
    refine (h index e he hc).imp_left fun hp => ?_
    obtain ⟨p, hmem, rfl⟩ := List.mem_map.mp hp
    rcases OpenElement.key_mem_or_mem_closed name around.depth hcrossed hmem with hkey | hclosed
    · obtain ⟨q, hq, hkey⟩ := List.mem_map.mp hkey
      rw [hpending]
      exact List.mem_map.mpr ⟨q, hq, (Prod.mk.inj hkey).1⟩
    · exact absurd hclosed hopen

theorem step (h : r.Enclosing) (ht : r.Tracks markers opened content?) {byte : UInt8}
    (hr : r.step { markers := markers.size, depth := opened.length } byte = (r', none)) :
    r'.Enclosing := by
  have hreads := r.lexer.reads_step byte
  unfold TagReader.step at hr
  simp only at hr
  generalize r.lexer.step byte = next at hreads hr
  obtain ⟨l, tag⟩ := next
  cases hreads with
  | outside | start | started | opening =>
    cases hr
    exact h.congr rfl
  | openTag hs hs' =>
    cases hr
    exact h.openTag ht _ _ _ _
  | closeTag hs hs' =>
    obtain ⟨rfl, htag⟩ := Prod.mk.inj hr
    have hlt := ht.follows.tagStart_lt (by simp [hs])
    exact h.closeTag (Nat.lt_succ_of_lt hlt) (Prod.ext rfl htag)

theorem feed (h : r.Enclosing) (ht : r.Tracks markers opened content?)
    (hopened : openBefore markers markers.size = opened.filterMap id) {bytes : List UInt8}
    (hr : r.feed { markers := markers.size, depth := opened.length } bytes = (r', none)) :
    r'.Enclosing := by
  induction bytes generalizing r with
  | nil =>
    cases hr
    exact h
  | cons byte bytes ih =>
    unfold TagReader.feed at hr
    split at hr
    · next next hstep => exact ih (h.step ht hstep) (ht.step hopened hstep).1 hr
    · cases hr

theorem attach (h : r.Enclosing) : r.attachMarker.1.Enclosing := by
  unfold TagReader.attachMarker ElementTable.attach
  cases hi : r.table.current with
  | some index => exact h.congr rfl
  | none =>
    intro index e he hc
    rcases getElem?_push_eq_some he with he | ⟨-, rfl⟩
    · exact h index e he hc
    · cases hc

theorem markContent (h : r.Enclosing) : r.markContent.Enclosing := by
  intro index e he hc
  replace he : r.table.markContent.elements[index]? = some e := he
  rw [r.table.getElem?_markContent] at he
  split at he
  · next hmem => exact .inl hmem
  · exact h index e he hc

end TagReader.Enclosing

/-! ## 2. Compiled templates -/

theorem TagReader.Enclosing.edit {a b : Assembly ω δ} (he : Assembly.Edit a b) (ha : a.Consistent)
    (h : a.reader.Enclosing) : b.reader.Enclosing := by
  have hi : a.reader.interrupt.Enclosing := h.congr rfl
  cases he with
  | bytes hr => exact h.feed ha.tracks ha.opened hr
  | declaration rest seen => exact h
  | content hin hc => exact hi.markContent
  | unfold ho hin hcross => exact hi
  | close ho hin hcross => exact hi
  | placed hp =>
    cases hp with
    | attributes run hc hin => exact hi.attach
    | plain | wrapper | folded | foldedWrapper => exact hi

theorem Assembly.enclosing_of_compile? {source : String} {declarations : List (Declaration ω δ)}
    {a : Assembly ω δ} {t : Template ω δ} (h : compile? source declarations = .ok (a, t))
    {index : Nat} {e : Element} (he : t.elements[index]? = some e) (hc : e.containsContent = true) :
    e.closeStart < e.closeEnd := by
  obtain ⟨counts, hfold, hfinish⟩ := compile?_eq_ok h
  obtain ⟨-, -, hu, rfl⟩ := finish_eq_ok hfinish
  have hboth := invariant_of_foldlM (P := fun a => a.Consistent ∧ a.reader.Enclosing)
    (fun _ _ hedit ha => ⟨ha.1.edit hedit, ha.2.edit hedit ha.1⟩) hfold
    ⟨.initial counts declarations, .initial⟩
  rcases hboth.2 index e he hc with hp | hlt
  · -- At the end no element waits.
    cases hpending : a.reader.table.pending with
    | nil =>
      rw [hpending] at hp
      cases hp
    | cons p rest => simp [ElementTable.unclosed?, hpending] at hu
  · exact hlt

/-- The elements that hold the content marker are those that stand around it. -/
theorem Wrapper.containsContent_iff_encloses {source : String}
    {declarations : List (Declaration ω δ)} {w : Wrapper ω δ}
    (h : Wrapper.compile source declarations = .ok w) {index : Nat} {e : Element}
    (he : w.template.elements[index]? = some e) :
    e.containsContent = true ↔ e.Encloses w.content := by
  have hclosed := (Wrapper.wellFormed_of_compile h).closed index e he
  obtain ⟨a, t, content, ht, hcontent, rfl⟩ := Wrapper.compile_eq_ok h
  constructor
  · intro hc
    obtain ⟨x, hx, -, -, hopen, hle⟩ := hclosed.inside hc
    cases hx
    exact ⟨hopen, Nat.lt_of_le_of_lt hle (Assembly.enclosing_of_compile? ht he hc)⟩
  · rintro ⟨hopen, hlt⟩
    cases hc : e.containsContent with
    | true => rfl
    | false =>
      rcases hclosed.outside hc content rfl with hle | ⟨-, hle⟩
      · exact absurd (Nat.lt_of_lt_of_le hclosed.start_lt hopen) (Nat.not_lt_of_le hle)
      · exact absurd hlt (Nat.not_lt_of_le hle)

end HtmlTemplate
