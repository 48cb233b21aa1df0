import HtmlTemplate.Proofs.Template.Compiled

/-!
# Parts of a well-formed template

A component is a template as a whole, or the part of it before or behind its
content marker. A walk over a component jumps over elements and over the content
of wrappers. This module says where it may land, and which of the wrappers that
were opened in the component are open there.

Results:
1. `Component.WellFormed`: a part of a well-formed template. Compiled components
   and the two parts of compiled wrappers are such parts.
2. `opened_succ_of_start`, `opened_of_end`, `opened_exit`: the wrappers that are
   open inside of a component.
3. `openBefore_nextMarker`: behind an element the same wrappers are open as in its
   start tag.
4. `resumable_of_end`, `resumable_of_element`: if something is dropped that holds the
   content marker, then the part behind it may be resumed at its end.
-/

namespace HtmlTemplate

variable {ω δ : Type}

/-! ## 1. Places -/

namespace Template

variable {t : Template ω δ} {m : Marker ω δ} {content? : Option Place} {maxNesting : Nat}

theorem cuts_start (t : Template ω δ) : t.Cuts t.start :=
  ⟨Nat.zero_le _, Nat.zero_le _, fun _ _ _ _ => Nat.zero_le _⟩

theorem cuts_stop (t : Template ω δ) : t.Cuts t.stop := by
  refine ⟨Nat.le_refl _, Nat.le_refl _, fun i m hi hm => ?_⟩
  rw [Array.getElem?_eq_none hi] at hm
  cases hm

theorem WellFormed.cuts_marker (h : t.WellFormed content? maxNesting) {i : Nat}
    (hm : t.markers[i]? = some m) : t.Cuts { marker := i, offset := m.position } :=
  ⟨Nat.le_of_lt (Array.getElem?_eq_some_iff.mp hm).1, h.ordered.position_le i m hm,
    fun j n hj hn => h.ordered.position_mono i j m n hj hm hn⟩

theorem WellFormed.cuts_succ (h : t.WellFormed content? maxNesting) {i : Nat}
    (hm : t.markers[i]? = some m) : t.Cuts { marker := i + 1, offset := m.position } :=
  ⟨(Array.getElem?_eq_some_iff.mp hm).1, h.ordered.position_le i m hm,
    fun j n hj hn => h.ordered.position_mono i j m n (Nat.le_of_succ_le hj) hm hn⟩

/-- A wrapper start knows its end. -/
theorem WellFormed.exists_end (h : t.WellFormed content? maxNesting) {i : Nat}
    {run : δ → WrapperRender ω Unit} {closing? : Option Nat} (hm : t.markers[i]? = some m)
    (ha : m.action = .wrapperStart run closing?) :
    ∃ (j : Nat) (n : Marker ω δ), closing? = some j ∧ t.markers[j]? = some n ∧
      n.action = .wrapperEnd i ∧ openBefore t.markers j = i :: openBefore t.markers i := by
  rcases h.balanced.start_closed i m run closing? hm ha with ⟨-, hopen⟩ | ⟨j, n, hj, hn, hna⟩
  · rw [h.complete] at hopen
    cases hopen
  · exact ⟨j, n, hj, hn, hna, openBefore_of_head (h.balanced.end_head j n i hn hna)⟩

/-- The part behind the content marker `x` may be resumed at the place: no wrapper is
open there that was opened in that part. -/
structure Resumable (t : Template ω δ) (x p : Place) : Prop extends t.Cuts p where
  marker_ge : x.marker ≤ p.marker
  offset_ge : x.offset ≤ p.offset
  opened_lt : ∀ i, i ∈ openBefore t.markers p.marker → i < x.marker

end Template

namespace Component

/-- The component is all of its template, which has no content marker, or the part
before or behind the content marker. -/
inductive IsPart (c : Component ω δ) : Option Place → Prop
  | whole : c.part = .whole → c.entry = c.template.start → c.exit = c.template.stop →
      IsPart c none
  | preContent : c.part = .preContent → c.entry = c.template.start → IsPart c (some c.exit)
  | postContent : c.part = .postContent → c.exit = c.template.stop → IsPart c (some c.entry)

/-- The component is a part of a well-formed template. -/
structure WellFormed (c : Component ω δ) (content? : Option Place) : Prop extends
    Template.WellFormed c.template content? c.maxNesting where
  part : c.IsPart content?

/-- The wrappers that are open before the marker with the index `i` and were opened in
the component. -/
def opened (c : Component ω δ) (i : Nat) : List Nat :=
  (openBefore c.template.markers i).filter (c.entry.marker ≤ ·)

variable {c : Component ω δ} {m : Marker ω δ} {content? : Option Place} {i : Nat}

/-! ## 2. Open wrappers -/

theorem opened_eq_nil (h : ∀ j, j ∈ openBefore c.template.markers i → j < c.entry.marker) :
    c.opened i = [] := by
  refine List.filter_eq_nil_iff.mpr ?_
  intro j hj
  simpa using h j hj

theorem opened_entry (c : Component ω δ) : c.opened c.entry.marker = [] :=
  opened_eq_nil fun _ hj => lt_of_mem_openBefore hj

theorem opened_congr {j : Nat}
    (h : openBefore c.template.markers i = openBefore c.template.markers j) :
    c.opened i = c.opened j := by
  rw [opened, h, opened]

theorem opened_cons {j : Nat} {rest : List Nat} (hj : c.entry.marker ≤ j)
    (h : openBefore c.template.markers i = j :: rest) :
    c.opened i = j :: rest.filter (c.entry.marker ≤ ·) := by
  rw [opened, h, List.filter_cons_of_pos (by simpa using hj)]

theorem opened_succ_of_start {run : δ → WrapperRender ω Unit} {closing? : Option Nat}
    (hi : c.entry.marker ≤ i) (hm : c.template.markers[i]? = some m)
    (ha : m.action = .wrapperStart run closing?) : c.opened (i + 1) = i :: c.opened i := by
  refine opened_cons hi ?_
  rw [openBefore_succ hm, ha]
  rfl

theorem opened_succ_of_not_boundsWrapper (hm : c.template.markers[i]? = some m)
    (hb : m.boundsWrapper = false) : c.opened (i + 1) = c.opened i := by
  refine opened_congr ?_
  rw [openBefore_succ hm, openAfter_of_not_boundsWrapper hb]

namespace WellFormed

variable (h : c.WellFormed content?)
include h

/-- A wrapper end takes off its wrapper, if that was opened in the component. -/
theorem opened_of_end {opening : Nat} (hm : c.template.markers[i]? = some m)
    (ha : m.action = .wrapperEnd opening) :
    if c.entry.marker ≤ opening then c.opened i = opening :: c.opened (i + 1)
    else c.opened (i + 1) = c.opened i := by
  have hopen := openBefore_of_head (h.balanced.end_head i m opening hm ha)
  have hnext : openBefore c.template.markers (i + 1) = openBefore c.template.markers opening := by
    rw [openBefore_succ hm, ha, hopen]
    rfl
  split
  · next hle => rw [opened_congr hnext, opened_cons hle hopen, opened]
  · next hlt =>
    rw [opened_congr hnext, opened, opened, hopen, List.filter_cons_of_neg (by simpa using hlt)]

theorem length_opened_le (hi : i ≤ c.template.markers.size) :
    (c.opened i).length ≤ c.maxNesting :=
  Nat.le_trans (List.length_filter_le _ _) (h.nesting_le i hi)

theorem cuts_entry : c.template.Cuts c.entry := by
  cases h.part with
  | whole _ hentry _ => exact hentry ▸ c.template.cuts_start
  | preContent _ hentry => exact hentry ▸ c.template.cuts_start
  | postContent _ _ => exact h.content_cuts c.entry rfl

theorem cuts_exit : c.template.Cuts c.exit := by
  cases h.part with
  | whole _ _ hexit => exact hexit ▸ c.template.cuts_stop
  | preContent _ _ => exact h.content_cuts c.exit rfl
  | postContent _ hexit => exact hexit ▸ c.template.cuts_stop

/-- The markers of a component stand within its literal bytes. -/
theorem position_le (hi : i < c.exit.marker) (hm : c.template.markers[i]? = some m) :
    m.position ≤ c.exit.offset := by
  cases h.part with
  | whole _ _ hexit =>
    rw [hexit]
    exact h.ordered.position_le i m hm
  | preContent _ _ => exact h.content_behind c.exit rfl i m hi hm
  | postContent _ hexit =>
    rw [hexit]
    exact h.ordered.position_le i m hm

theorem exit_eq (hpart : c.part ≠ .preContent) : c.exit = c.template.stop := by
  cases h.part with
  | whole _ _ hexit => exact hexit
  | preContent hp _ => exact absurd hp hpart
  | postContent _ hexit => exact hexit

/-- Only the part before the content marker ends inside of wrappers. -/
theorem opened_exit (hpart : c.part ≠ .preContent) : c.opened c.exit.marker = [] := by
  refine opened_eq_nil ?_
  intro j hj
  rw [h.exit_eq hpart] at hj
  exact absurd (h.complete ▸ hj) List.not_mem_nil

theorem content_eq (hpart : c.part = .preContent) : content? = some c.exit := by
  cases h.part with
  | whole hp _ _ => cases hp.symm.trans hpart
  | preContent _ _ => rfl
  | postContent hp _ => cases hp.symm.trans hpart

/-- Only behind the part before the content marker there are more markers. -/
theorem part_eq_of_le (hm : c.template.markers[i]? = some m) (hi : c.exit.marker ≤ i) :
    c.part = .preContent := by
  by_cases hpart : c.part = .preContent
  · exact hpart
  · rw [h.exit_eq hpart] at hi
    exact absurd (Array.getElem?_eq_some_iff.mp hm).1 (Nat.not_lt_of_le hi)

theorem entry_le_exit : c.entry.marker ≤ c.exit.marker ∧ c.entry.offset ≤ c.exit.offset := by
  cases h.part with
  | whole _ hentry _ | preContent _ hentry =>
    rw [hentry]
    exact ⟨Nat.zero_le _, Nat.zero_le _⟩
  | postContent _ hexit =>
    rw [hexit]
    exact ⟨h.cuts_entry.marker_le, h.cuts_entry.offset_le⟩

/-! ## 3. Elements -/

/-- An element that begins in the component and does not hold the content marker
ends in it. -/
theorem ends_within {index : Nat} {e : Element} (he : c.template.elements[index]? = some e)
    (hs : e.openStart < c.exit.offset)
    (hout : ¬(c.part = .preContent ∧ e.containsContent = true)) :
    e.nextMarker ≤ c.exit.marker ∧ e.closeEnd ≤ c.exit.offset := by
  have hclosed := h.closed index e he
  by_cases hpart : c.part = .preContent
  · have hc : e.containsContent = false := by
      cases hc : e.containsContent with
      | false => rfl
      | true => exact absurd ⟨hpart, hc⟩ hout
    rcases hclosed.outside hc c.exit (h.content_eq hpart) with hle | hle
    · exact absurd hs (Nat.not_lt_of_le hle)
    · exact hle
  · rw [h.exit_eq hpart]
    exact ⟨hclosed.next_le, hclosed.closeEnd_le⟩

end WellFormed

end Component

/-- Behind an element the same wrappers are open as in its start tag. -/
theorem Element.Closed.openBefore_nextMarker {e : Element} {markers : Array (Marker ω δ)}
    {size i : Nat} {content? : Option Place} (h : e.Closed markers size content?)
    (hi : i ≤ e.firstInnerMarker)
    (hs : ∀ (j : Nat) (m : Marker ω δ), i ≤ j → markers[j]? = some m → e.openStart < m.position) :
    openBefore markers e.nextMarker = openBefore markers i := by
  rw [h.balanced]
  exact openBefore_eq_of_unmarked hi fun j m hij hj hm =>
    h.unmarked j m hm (hs j m hij hm) ((h.inner_iff j m hm).mp hj)

namespace Template

variable {t : Template ω δ} {e : Element} {content? : Option Place} {maxNesting index : Nat}

theorem WellFormed.cuts_element (h : t.WellFormed content? maxNesting)
    (he : t.elements[index]? = some e) {offset : Nat} (ho : offset ≤ e.closeEnd) :
    t.Cuts { marker := e.nextMarker, offset := offset } :=
  have hclosed := h.closed index e he
  ⟨hclosed.next_le, Nat.le_trans ho hclosed.closeEnd_le,
    fun i m hi hm => Nat.le_trans ho (hclosed.behind i m hm hi)⟩

/-! ## 4. Places behind the content marker -/

/-- An element that holds the content marker is dropped from its start tag on. -/
theorem WellFormed.resumable_of_element {x : Place} (h : t.WellFormed (some x) maxNesting)
    (he : t.elements[index]? = some e) (hc : e.containsContent = true) {i offset : Nat}
    (hi : i ≤ e.firstInnerMarker)
    (hopen : openBefore t.markers e.nextMarker = openBefore t.markers i)
    (hstart : e.closeStart ≤ offset) (hend : offset ≤ e.closeEnd) :
    t.Resumable x { marker := e.nextMarker, offset := offset } := by
  obtain ⟨y, hy, hinner, hnext, -, hclose⟩ := (h.closed index e he).inside hc
  cases hy
  refine ⟨h.cuts_element he hend, hnext, Nat.le_trans hclose hstart, fun j hj => ?_⟩
  rw [hopen] at hj
  exact Nat.lt_of_lt_of_le (lt_of_mem_openBefore hj) (Nat.le_trans hi hinner)

/-- The content of a wrapper is dropped that holds the content marker. -/
theorem WellFormed.resumable_of_end {x : Place} (h : t.WellFormed (some x) maxNesting) {i j : Nat}
    {n : Marker ω δ} (hi : i < x.marker) (hj : x.marker ≤ j) (hn : t.markers[j]? = some n)
    (hopen : openBefore t.markers j = i :: openBefore t.markers i) :
    t.Resumable x { marker := j, offset := n.position } := by
  refine ⟨h.cuts_marker hn, hj, (h.content_cuts x rfl).ahead j n hj hn, fun k hk => ?_⟩
  rw [hopen] at hk
  rcases List.mem_cons.mp hk with rfl | hk
  · exact hi
  · exact Nat.lt_trans (lt_of_mem_openBefore hk) hi

end Template

/-! ## 5. Compiled templates -/

/-- The template of a wrapper fits its content marker. -/
def Wrapper.WellFormed (w : Wrapper ω δ) : Prop :=
  w.template.WellFormed (some w.content) w.maxNesting

namespace Wrapper.WellFormed

variable {w : Wrapper ω δ}

theorem preContent (h : w.WellFormed) : w.preContent.WellFormed (some w.content) :=
  ⟨h, .preContent rfl rfl⟩

theorem postContent (h : w.WellFormed) : w.postContent.WellFormed (some w.content) :=
  ⟨h, .postContent rfl rfl⟩

/-- The part behind the content marker begins where it is. -/
theorem resumable_content (h : w.WellFormed) : w.template.Resumable w.content w.content :=
  ⟨h.content_cuts w.content rfl, Nat.le_refl _, Nat.le_refl _, fun _ hi => lt_of_mem_openBefore hi⟩

end Wrapper.WellFormed

theorem Component.wellFormed_of_compile {source : String} {declarations : List (Declaration ω δ)}
    {c : Component ω δ} (h : Component.compile source declarations = .ok c) :
    c.WellFormed none := by
  obtain ⟨a, t, ht, hcontent, rfl⟩ := Component.compile_eq_ok h
  have hw := Assembly.wellFormed_of_compile? ht
  rw [hcontent] at hw
  exact ⟨hw, .whole rfl rfl rfl⟩

theorem Wrapper.wellFormed_of_compile {source : String} {declarations : List (Declaration ω δ)}
    {w : Wrapper ω δ} (h : Wrapper.compile source declarations = .ok w) : w.WellFormed := by
  obtain ⟨a, t, content, ht, hcontent, rfl⟩ := Wrapper.compile_eq_ok h
  have hw := Assembly.wellFormed_of_compile? ht
  rw [hcontent] at hw
  exact hw

end HtmlTemplate
