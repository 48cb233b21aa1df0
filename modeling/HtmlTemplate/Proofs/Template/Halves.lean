import HtmlTemplate.Proofs.Template.Parts

/-!
# The halves of a wrapper

A wrapper is rendered in two halves, up to its content marker and from there on. The
elements of its template are shared by both, and where an element stands is told by
nothing but `containsContent`, which was noted when the content marker was met. This
module says that it tells all there is to know: an element begins and ends in one of the
halves, or it begins in the first and ends in the second.

Results:
1. `Template.WellFormed.exists_liesOn_iff`: an element stands before the content marker,
   behind it or around it.
2. `Wrapper.divided_of_compile`: the content marker divides the literal bytes, the markers
   and the elements of every compiled wrapper.
-/

namespace HtmlTemplate

variable {ω δ : Type}

/-! ## 1. Elements -/

/-- Where an element stands to the content marker. -/
inductive Side where
  | before
  | behind
  | around
  deriving DecidableEq

/-- The element with this index stands on the side of the content marker `x`. -/
def Template.LiesOn (t : Template ω δ) (x : Place) (index : Nat) (e : Element) : Side → Prop
  | .before => e.containsContent = false ∧ e.closeEnd ≤ x.offset ∧ e.nextMarker ≤ x.marker
  | .behind => e.containsContent = false ∧ x.offset ≤ e.openStart ∧
      ∀ (i : Nat) (m : Marker ω δ) (run : δ → AttributeRender ω Unit),
        t.markers[i]? = some m → m.action = .attributes run index → x.marker ≤ i
  | .around => e.containsContent = true ∧ (e.openEnd ≤ x.offset ∧ x.offset ≤ e.closeStart) ∧
      e.firstInnerMarker ≤ x.marker ∧ x.marker ≤ e.nextMarker

namespace Template.WellFormed

variable {t : Template ω δ} {x : Place} {maxNesting index : Nat} {e : Element}

/-- The attribute markers of an element that begins behind the content marker stand behind
it, too: the others do not stand behind it, but the `<` does. -/
theorem content_le_of_attributes (h : t.WellFormed (some x) maxNesting)
    (he : t.elements[index]? = some e) (hx : x.offset ≤ e.openStart) {i : Nat} {m : Marker ω δ}
    {run : δ → AttributeRender ω Unit} (hm : t.markers[i]? = some m)
    (ha : m.action = .attributes run index) : x.marker ≤ i := by
  obtain ⟨e', he', hstart, -⟩ := h.owner i m run index hm ha
  cases he.symm.trans he'
  refine Nat.le_of_not_lt fun hi => ?_
  have hle := h.content_behind x rfl i m hi hm
  exact absurd (Nat.lt_of_le_of_lt hx hstart) (Nat.not_lt_of_le hle)

theorem exists_liesOn (h : t.WellFormed (some x) maxNesting) (he : t.elements[index]? = some e) :
    ∃ side, t.LiesOn x index e side := by
  have hclosed := h.closed index e he
  cases hc : e.containsContent with
  | true =>
    obtain ⟨y, hy, hinner, hnext, hopen, hclose⟩ := hclosed.inside hc
    cases hy
    exact ⟨.around, hc, ⟨hopen, hclose⟩, hinner, hnext⟩
  | false =>
    rcases hclosed.outside hc x rfl with hstart | ⟨hnext, hend⟩
    · exact ⟨.behind, hc, hstart, fun i m run hm ha => h.content_le_of_attributes he hstart hm ha⟩
    · exact ⟨.before, hc, hend, hnext⟩

/-- Two sides are one: what they say of `containsContent` tells `around` from the others, and
the `<` of the start tag stands before the end of the element. -/
theorem liesOn_unique (h : t.WellFormed (some x) maxNesting) (he : t.elements[index]? = some e)
    {side side' : Side} (hs : t.LiesOn x index e side) (hs' : t.LiesOn x index e side') :
    side = side' := by
  have hclosed := h.closed index e he
  have hlt : e.openStart < e.closeEnd := Nat.lt_of_lt_of_le hclosed.start_lt
    (Nat.le_trans hclosed.openEnd_le hclosed.closeStart_le)
  have hbefore : t.LiesOn x index e .before → ¬t.LiesOn x index e .behind :=
    fun hs hs' => absurd (Nat.lt_of_lt_of_le hlt (Nat.le_trans hs.2.1 hs'.2.1)) (Nat.lt_irrefl _)
  have haround : t.LiesOn x index e .around → e.containsContent ≠ false :=
    fun hs => by simp [hs.1]
  cases side <;> cases side' <;> first
    | rfl
    | exact absurd hs' (hbefore hs)
    | exact absurd hs (hbefore hs')
    | exact absurd hs'.1 (haround hs)
    | exact absurd hs.1 (haround hs')

theorem exists_liesOn_iff (h : t.WellFormed (some x) maxNesting)
    (he : t.elements[index]? = some e) :
    ∃ side, ∀ side', t.LiesOn x index e side' ↔ side' = side := by
  obtain ⟨side, hs⟩ := h.exists_liesOn he
  exact ⟨side, fun side' => ⟨fun hs' => h.liesOn_unique he hs' hs, fun heq => heq ▸ hs⟩⟩

end Template.WellFormed

/-! ## 2. Wrappers -/

/-- The content marker divides the wrapper: its literal bytes, its markers and its elements. -/
structure Wrapper.Divided (w : Wrapper ω δ) : Prop where
  position_le : ∀ (i : Nat) (m : Marker ω δ), w.template.markers[i]? = some m →
    i < w.content.marker → m.position ≤ w.content.offset
  position_ge : ∀ (i : Nat) (m : Marker ω δ), w.template.markers[i]? = some m →
    w.content.marker ≤ i → w.content.offset ≤ m.position
  lies : ∀ (index : Nat) (e : Element), w.template.elements[index]? = some e →
    ∃ side, ∀ side', w.template.LiesOn w.content index e side' ↔ side' = side
  size_markers : w.preContent.markers.size = w.content.marker
  size_html : w.preContent.html.size = w.content.offset
  markers_eq : w.preContent.markers ++ w.postContent.markers = w.template.markers
  html_eq : w.preContent.html ++ w.postContent.html = w.template.html

namespace Wrapper.WellFormed

variable {w : Wrapper ω δ}

theorem markers_append (h : w.WellFormed) :
    w.preContent.markers ++ w.postContent.markers = w.template.markers := by
  have hcut := h.content_cuts w.content rfl
  calc w.preContent.markers ++ w.postContent.markers
    _ = w.template.markers.extract (min 0 w.content.marker)
          (max w.content.marker w.template.markers.size) := Array.extract_append_extract
    _ = w.template.markers := by
      rw [Nat.min_eq_left (Nat.zero_le _), Nat.max_eq_right hcut.marker_le, Array.extract_size]

theorem html_append (h : w.WellFormed) :
    w.preContent.html ++ w.postContent.html = w.template.html := by
  have hcut := h.content_cuts w.content rfl
  calc w.preContent.html ++ w.postContent.html
    _ = w.template.html.extract (min 0 w.content.offset)
          (max w.content.offset w.template.html.size) := ByteArray.extract_append_extract
    _ = w.template.html := by
      rw [Nat.min_eq_left (Nat.zero_le _), Nat.max_eq_right hcut.offset_le,
        ByteArray.extract_zero_size]

theorem divided (h : w.WellFormed) : w.Divided where
  position_le i m hm hi := h.content_behind w.content rfl i m hi hm
  position_ge i m hm hi := (h.content_cuts w.content rfl).ahead i m hi hm
  lies _ _ he := Template.WellFormed.exists_liesOn_iff h he
  size_markers := by
    have hcut := h.content_cuts w.content rfl
    exact Array.size_extract.trans (Nat.min_eq_left hcut.marker_le)
  size_html := by
    have hcut := h.content_cuts w.content rfl
    exact ByteArray.size_extract.trans (Nat.min_eq_left hcut.offset_le)
  markers_eq := h.markers_append
  html_eq := h.html_append

end Wrapper.WellFormed

/-- The content marker of a compiled wrapper divides it. -/
theorem Wrapper.divided_of_compile {source : String} {declarations : List (Declaration ω δ)}
    {w : Wrapper ω δ} (h : Wrapper.compile source declarations = .ok w) : w.Divided :=
  (Wrapper.wellFormed_of_compile h).divided

/-- The source `<b ${outer}><br ${edge}>${}<u ${next}>x</u></b>`. -/
def dividedSource : String :=
  "<b $\x7bouter\x7d><br $\x7bedge\x7d>$\x7b\x7d<u $\x7bnext\x7d>x</u></b>"

/-- Its declarations. -/
def dividedMarkers : List (Declaration Unit Unit) :=
  [.attributes "outer" fun _ => pure (), .attributes "edge" fun _ => pure (),
   .attributes "next" fun _ => pure ()]

/-- The content marker stands right behind an element without an end tag and right before
another element. -/
theorem Wrapper.divided_of_dividedSource :
    ∃ w, Wrapper.compile dividedSource dividedMarkers = .ok w ∧ w.Divided ∧
      w.content = { marker := 2, offset := 9 } ∧
      w.template.elements.map Element.containsContent = #[true, false, false] ∧
      w.template.elements.map Element.closeEnd = #[22, 9, 18] := by
  have hrun : ((Wrapper.compile dividedSource dividedMarkers).toOption.any fun w =>
      w.content = { marker := 2, offset := 9 } &&
        (w.template.elements.map Element.containsContent = #[true, false, false] &&
          w.template.elements.map Element.closeEnd = #[22, 9, 18])) = true := by
    decide +kernel
  obtain ⟨w, hw, hvalues⟩ := exists_ok_of_any hrun
  simp only [Bool.and_eq_true, decide_eq_true_eq] at hvalues
  exact ⟨w, hw, divided_of_compile hw, hvalues⟩

end HtmlTemplate
