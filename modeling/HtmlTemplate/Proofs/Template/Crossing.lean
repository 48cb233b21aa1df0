import HtmlTemplate.Proofs.Template.Pairing
import HtmlTemplate.Proofs.Template.Refusals

/-!
# Wrappers and the elements that they must not cross

The walk of a renderer drops an element, or what is in it, by going on at a later marker. The
wrappers that are open must be the same there. So a template is refused in which a
wrapper crosses the tags of an element with attribute markers.

Results:
1. `Element.Closed.slice_balanced`: of two markers that belong to each other, both or none
   are among those in an element.
2. `crossed_of_compile?`: if a source is refused for that reason, a wrapper does cross
   an element.
3. `elementsUncrossed_of_compile`: both, for every source.
-/

namespace HtmlTemplate

variable {ω δ : Type}

/-! ## 1. Slices of compiled templates -/

/-- A wrapper starts among the markers in an element if and only if it ends there. -/
theorem Element.Closed.slice_balanced {e : Element} {markers : Array (Marker ω δ)} {size : Nat}
    {content? : Option Place} (h : e.Closed markers size content?) (hb : Balanced markers)
    {i j : Nat} (hi : closingAt? markers i = some j) :
    (e.firstInnerMarker ≤ i ∧ i < e.nextMarker) ↔ (e.firstInnerMarker ≤ j ∧ j < e.nextMarker) := by
  have hj := hb.opening_of_closing hi
  have hlt := hb.opening_lt hj
  have hle := h.inner_le_next
  -- The wrapper is open at both ends of the slice or at none.
  have hopen : (i < e.nextMarker ∧ e.nextMarker ≤ j) ↔
      (i < e.firstInnerMarker ∧ e.firstInnerMarker ≤ j) := by
    rw [← hb.mem_openBefore_iff hj, ← hb.mem_openBefore_iff hj, h.balanced]
  constructor
  · rintro ⟨hfirst, hnext⟩
    refine ⟨by omega, Nat.not_le.mp fun hout => ?_⟩
    have := hopen.mp ⟨hnext, hout⟩
    omega
  · rintro ⟨hfirst, hnext⟩
    refine ⟨Nat.not_lt.mp fun hout => ?_, by omega⟩
    have := hopen.mpr ⟨hout, hfirst⟩
    omega

/-! ## 2. Refused sources -/

theorem Crossed.of_prefix {events events' : List SourceEvent} {name : TagName}
    (h : Crossed events name) (hp : events <+: events') : Crossed events' name := by
  obtain ⟨more, rfl⟩ := hp
  exact h.append more

theorem TagReader.Recounts.crossed_of_feed {r r' : TagReader} {s : Scan}
    {markers : Array (Marker ω δ)} {opened : List (Option Nat)} {content? : Option Place}
    (h : r.Recounts s opened.length) (ht : r.Tracks markers opened content?)
    (hopened : openBefore markers markers.size = opened.filterMap id) {bytes : List UInt8}
    {name : String}
    (hr : r.feed { markers := markers.size, depth := opened.length } bytes = (r', some name)) :
    ∃ tagName : TagName, tagName.text = name ∧
      Crossed ((bytes.map Item.byte).foldl Scan.step s).events tagName := by
  induction bytes generalizing r s with
  | nil => cases hr
  | cons byte bytes ih =>
    unfold TagReader.feed at hr
    split at hr
    · next next hstep => exact ih (h.step ht hstep) (ht.step hopened hstep).1 hr
    · next next other hstep =>
      cases hr
      obtain ⟨tagName, htext, hcrossed⟩ := h.crossed_of_step hstep
      exact ⟨tagName, htext, hcrossed.of_prefix (Scan.prefix_events_foldl _ _)⟩

namespace Assembly.Recounted

variable {a : Assembly ω δ} {s : Scan} {name : String}

theorem crossed_of_feed (h : Recounted a s) {bytes : List UInt8} {r : TagReader}
    (hr : a.reader.feed a.surroundings bytes = (r, some name)) :
    ∃ tagName : TagName, tagName.text = name ∧
      Crossed ((bytes.map Item.byte).foldl Scan.step s).events tagName :=
  h.recounts.crossed_of_feed h.tracks h.opened hr

/-- A piece is refused for a crossed element only if one is crossed. -/
theorem crossed_of_refuses (h : Recounted a s) {p : Piece}
    (hr : a.Refuses p (.wrapperCrossesElement name)) :
    ∃ tagName : TagName, tagName.text = name ∧
      Crossed ((p.items a.declarations).foldl Scan.step s).events tagName := by
  cases hr with
  | crossedText hr => exact h.crossed_of_feed hr
  | @crossedStatic t d rest r name hname hds hr =>
    obtain ⟨i, hitems, -⟩ := Token.items_of_named hname hds
    obtain ⟨tagName, htext, hcrossed⟩ := h.crossed_of_feed hr
    refine ⟨tagName, htext, ?_⟩
    show Crossed ((t.items a.declarations).foldl Scan.step s).events tagName
    rw [hitems, List.foldl_append]
    exact hcrossed.of_prefix (Scan.prefix_events_foldl _ _)
  | @crossedEnd t opening rest name hk ho hcross =>
    obtain ⟨kind, start, stop⟩ := t
    cases hk
    have hclosed := h.recounts.interrupt
    rw [ho, List.length_cons] at hclosed
    exact hclosed.crossed_of_closeWrapper hcross

end Assembly.Recounted

theorem crossed_of_compile? {source : String} {declarations : List (Declaration ω δ)}
    {name : String} (h : compile? source declarations = .error (.wrapperCrossesElement name)) :
    ∃ tagName : TagName, tagName.text = name ∧
      Crossed (SourceEvent.ofSource source declarations) tagName := by
  rcases compile?_eq_error h with ⟨other, -, he⟩ | ⟨-, ⟨front, p, back, a, hpieces, hfront, hr⟩ | h⟩
  · cases he
  · obtain ⟨hunused, hrecounted⟩ :=
      (Assembly.Recounted.initial _ declarations).of_foldlM hfront
    obtain ⟨tagName, htext, hcrossed⟩ := hrecounted.crossed_of_refuses hr
    refine ⟨tagName, htext, ?_⟩
    rw [SourceEvent.ofSource, hpieces, SourceEvent.ofItems, items_append, items, List.foldl_append,
      List.foldl_append]
    rw [hunused] at hcrossed
    exact hcrossed.of_prefix (Scan.prefix_events_foldl _ _)
  · obtain ⟨a, -, hfinish⟩ := h
    rcases Assembly.finish_eq_error hfinish with ⟨-, he⟩ | ⟨-, other, -, he⟩ | ⟨-, he⟩ <;> cases he

/-! ## 3. Compiled templates -/

/-- Among the markers in an element, wrappers that start also end. -/
def Template.SlicesBalanced (t : Template ω δ) : Prop :=
  ∀ (index : Nat) (e : Element), t.elements[index]? = some e →
    ∀ i j, closingAt? t.markers i = some j →
      ((e.firstInnerMarker ≤ i ∧ i < e.nextMarker) ↔ (e.firstInnerMarker ≤ j ∧ j < e.nextMarker))

theorem Template.WellFormed.slicesBalanced {t : Template ω δ} {content? : Option Place}
    {maxNesting : Nat} (h : t.WellFormed content? maxNesting) : t.SlicesBalanced :=
  fun index e he _ _ hi => (h.closed index e he).slice_balanced h.balanced hi

/-- In a compiled template no wrapper crosses an element with attribute markers; and if a
source is refused because one does, one does. -/
theorem elementsUncrossed_of_compile (source : String) (declarations : List (Declaration ω δ)) :
    (∀ c, Component.compile source declarations = .ok c → c.template.SlicesBalanced) ∧
      (∀ w, Wrapper.compile source declarations = .ok w → w.template.SlicesBalanced) ∧
        ∀ name, Component.compile source declarations = .error (.wrapperCrossesElement name) ∨
            Wrapper.compile source declarations = .error (.wrapperCrossesElement name) →
          ∃ tagName : TagName, tagName.text = name ∧
            Crossed (SourceEvent.ofSource source declarations) tagName := by
  refine ⟨fun c h => ?_, fun w h => ?_, fun name h => ?_⟩
  · obtain ⟨a, t, ht, -, rfl⟩ := Component.compile_eq_ok h
    exact (Assembly.wellFormed_of_compile? ht).slicesBalanced
  · obtain ⟨a, t, content, ht, -, rfl⟩ := Wrapper.compile_eq_ok h
    exact (Assembly.wellFormed_of_compile? ht).slicesBalanced
  · have hcompile : compile? source declarations = .error (.wrapperCrossesElement name) := by
      rcases h with h | h
      · rcases Component.compile_eq_error h with h | ⟨a, t, -, -, he⟩
        · exact h
        · cases he
      · rcases Wrapper.compile_eq_error h with h | ⟨a, t, -, -, he⟩
        · exact h
        · cases he
    exact crossed_of_compile? hcompile

/-- The source `<li ${item}>${{frame}x}}</li>`. -/
def framedInsideSource : String := "<li $\x7bitem\x7d>$\x7b\x7bframe\x7dx\x7d\x7d</li>"

/-- The source `<li ${item}>${{frame}x</li>}}`. -/
def framedAcrossSource : String := "<li $\x7bitem\x7d>$\x7b\x7bframe\x7dx</li>\x7d\x7d"

/-- Their declarations. -/
def framedItems : List (Declaration Unit Unit) :=
  [.attributes "item" fun _ => pure (), .wrapper "frame" fun _ => pure ()]

theorem elementsUncrossed_of_framedItems :
    (∃ c, Component.compile framedInsideSource framedItems = .ok c ∧
      c.template.elements.size = 1 ∧ closingAt? c.template.markers 1 = some 2 ∧
        c.template.SlicesBalanced) ∧
      Component.compile framedAcrossSource framedItems = .error (.wrapperCrossesElement "li") ∧
        ∃ tagName : TagName, tagName.text = "li" ∧
          Crossed (SourceEvent.ofSource framedAcrossSource framedItems) tagName := by
  have hinside : (Component.compile framedInsideSource framedItems).toOption.any fun c =>
      c.template.elements.size = 1 && closingAt? c.template.markers 1 = some 2 := by
    decide +kernel
  have hacross : failsWith (Component.compile framedAcrossSource framedItems)
      (.wrapperCrossesElement "li") = true := by
    decide +kernel
  obtain ⟨c, hc, hvalues⟩ := exists_ok_of_any hinside
  simp only [Bool.and_eq_true, decide_eq_true_eq] at hvalues
  have hrefused := eq_error_of_failsWith hacross
  exact ⟨⟨c, hc, hvalues.1, hvalues.2, (elementsUncrossed_of_compile _ _).1 c hc⟩, hrefused,
    (elementsUncrossed_of_compile _ _).2.2 "li" (.inl hrefused)⟩

end HtmlTemplate
