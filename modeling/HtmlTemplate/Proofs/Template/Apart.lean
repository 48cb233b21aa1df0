import HtmlTemplate.Proofs.Template.Parts
import HtmlTemplate.Proofs.Template.Tags

/-!
# Tags stand apart

The tags of a source are read one behind the other, so no tag begins inside of another one. A
walk that jumps over an element lands at a tag or behind it, at the end of a wrapper or at the
content marker, and none of these places is inside of a start tag.

Results:
1. `Scan.Right.apart_of_mem`: two tags of a scan do not overlap.
2. `Template.Apart`: nor do the tags of two elements of a compiled template
   (`apart_of_compile?`).
3. `Template.BetweenTags`: places outside of all start tags, and `Cuts.before_or_behind`: all
   markers of a start tag are on the same side of such a place.
-/

namespace HtmlTemplate

open Markup

variable {ω δ : Type}

/-! ## 1. Tags of the scan -/

/-- One of two tags ends before the other one begins. -/
theorem Scan.Right.apart_of_mem {s : Scan} {html : List UInt8} (h : s.Right html)
    {e e' : SourceEvent} {start stop start' stop' : Nat} (he : e ∈ s.events) (he' : e' ∈ s.events)
    (hne : e ≠ e') (hspan : e.span? = some (start, stop))
    (hspan' : e'.span? = some (start', stop')) : stop ≤ start' ∨ stop' ≤ start := by
  have hapart := List.pairwise_iff_getElem.mp (List.pairwise_filterMap.mp h.apart)
  obtain ⟨i, hi, rfl⟩ := List.mem_iff_getElem.mp he
  obtain ⟨j, hj, rfl⟩ := List.mem_iff_getElem.mp he'
  rcases Nat.lt_trichotomy i j with hij | rfl | hji
  · exact .inl (hapart i j hi hj hij _ hspan _ hspan')
  · exact absurd rfl hne
  · exact .inr (hapart j i hj hi hji _ hspan' _ hspan)

/-! ## 2. Elements -/

namespace Template

/-- No tag of an element begins inside of a start tag. -/
structure Apart (t : Template ω δ) : Prop where
  /-- A start tag ends before the next one begins. -/
  starts : ∀ (i j : Nat) (e e' : Element), i < j → t.elements[i]? = some e →
    t.elements[j]? = some e' → e.openEnd ≤ e'.openStart
  /-- An end tag ends before a start tag, or begins behind it. -/
  ends : ∀ (i j : Nat) (e e' : Element), t.elements[i]? = some e → t.elements[j]? = some e' →
    e.closeEnd ≤ e'.openStart ∨ e'.openEnd ≤ e.closeStart

variable {t : Template ω δ} {e e' : Element} {events : List SourceEvent}

theorem ElementsFit.openEnd_le {s : Scan} {html : List UInt8} (h : t.ElementsFit s.events)
    (hs : s.Right html) {i j : Nat} (hij : i < j) (he : t.elements[i]? = some e)
    (he' : t.elements[j]? = some e') : e.openEnd ≤ e'.openStart := by
  have hlt := h.increasing i j e e' hij he he'
  obtain ⟨selfClosing, hmem⟩ := (h.fits i e he).startTag_mem
  obtain ⟨selfClosing', hmem'⟩ := (h.fits j e' he').startTag_mem
  have hne : e.startTag selfClosing ≠ e'.startTag selfClosing' := by
    intro heq
    simp only [Element.startTag, SourceEvent.startTag.injEq] at heq
    exact Nat.ne_of_lt hlt heq.2.2.2.1
  have hstart' := (h.fits j e' he').openStart_lt
  rcases hs.apart_of_mem hmem hmem' hne rfl rfl with hle | hle
  · exact hle
  · omega

theorem ElementsFit.apart {s : Scan} {html : List UInt8} (h : t.ElementsFit s.events)
    (hs : s.Right html) : t.Apart where
  starts _ _ _ _ hij he he' := h.openEnd_le hs hij he he'
  ends i j e e' he he' := by
    have hfits := h.fits i e he
    have hstart := hfits.openStart_lt
    by_cases halone : e.ClosesItself s.events
    · -- Then the close offsets are the end of its start tag.
      obtain ⟨hcloseStart, hcloseEnd⟩ := hfits.alone halone
      rw [hcloseStart, hcloseEnd]
      rcases Nat.lt_trichotomy i j with hij | rfl | hji
      · exact .inl (h.openEnd_le hs hij he he')
      · cases he.symm.trans he'
        exact .inr (Nat.le_refl _)
      · have hle := h.openEnd_le hs hji he' he
        exact .inr (by omega)
    · obtain ⟨selfClosing', hmem'⟩ := (h.fits j e' he').startTag_mem
      have hne : e.endTag ≠ e'.startTag selfClosing' := nofun
      exact hs.apart_of_mem (hfits.endTag halone).1 hmem' hne rfl rfl

end Template

theorem Assembly.apart_of_compile? {source : String} {declarations : List (Declaration ω δ)}
    {a : Assembly ω δ} {t : Template ω δ} (h : compile? source declarations = .ok (a, t)) :
    t.Apart :=
  (elementsFit_of_compile? h).apart (recounted_of_compile? h).right

theorem Component.apart_of_compile {source : String} {declarations : List (Declaration ω δ)}
    {c : Component ω δ} (h : Component.compile source declarations = .ok c) :
    c.template.Apart := by
  obtain ⟨a, t, ht, -, rfl⟩ := Component.compile_eq_ok h
  exact Assembly.apart_of_compile? ht

theorem Wrapper.apart_of_compile {source : String} {declarations : List (Declaration ω δ)}
    {w : Wrapper ω δ} (h : Wrapper.compile source declarations = .ok w) : w.template.Apart := by
  obtain ⟨a, t, content, ht, -, rfl⟩ := Wrapper.compile_eq_ok h
  exact Assembly.apart_of_compile? ht

/-! ## 3. Places outside of start tags -/

namespace Template

/-- The offset is not inside of a start tag. -/
def BetweenTags (t : Template ω δ) (offset : Nat) : Prop :=
  ∀ (i : Nat) (e : Element), t.elements[i]? = some e → offset ≤ e.openStart ∨ e.openEnd ≤ offset

variable {t : Template ω δ} {e e' : Element} {m : Marker ω δ} {content? : Option Place}
  {maxNesting index : Nat} {p : Place}

theorem betweenTags_zero (t : Template ω δ) : t.BetweenTags 0 := fun _ _ _ => .inl (Nat.zero_le _)

/-- The end tag of an element, and the place behind it. -/
theorem Apart.betweenTags (h : t.Apart) (he : t.elements[index]? = some e) {offset : Nat}
    (hs : e.closeStart ≤ offset) (ho : offset ≤ e.closeEnd) : t.BetweenTags offset := by
  intro j e' he'
  rcases h.ends index j e e' he he' with hle | hle
  · exact .inl (Nat.le_trans ho hle)
  · exact .inr (Nat.le_trans hle hs)

/-- The start and the end of a wrapper. -/
theorem WellFormed.betweenTags_marker (h : t.WellFormed content? maxNesting) {i : Nat}
    (hm : t.markers[i]? = some m) (hb : m.boundsWrapper = true) : t.BetweenTags m.position := by
  intro j e he
  have hopened := (h.closed j e he).unmarked i m hm
  rcases Nat.lt_or_ge e.openStart m.position with hlt | hle
  · refine .inr (Nat.le_of_not_lt fun hend => ?_)
    rw [hopened hlt hend] at hb
    cases hb
  · exact .inl hle

/-- The content marker. -/
theorem WellFormed.betweenTags_content (h : t.WellFormed (some p) maxNesting) :
    t.BetweenTags p.offset := by
  intro j e he
  have hclosed := h.closed j e he
  cases hc : e.containsContent with
  | true =>
    obtain ⟨x, hx, -, -, hend, -⟩ := hclosed.inside hc
    cases hx
    exact .inr hend
  | false =>
    rcases hclosed.outside hc p rfl with hle | ⟨-, hle⟩
    · exact .inl hle
    · exact .inr (Nat.le_trans hclosed.openEnd_le (Nat.le_trans hclosed.closeStart_le hle))

/-- A cut outside of start tags leaves the start tag of an element behind it, with its
markers, or takes it off with all of them. -/
theorem Cuts.before_or_behind (hcuts : t.Cuts p) (h : t.WellFormed content? maxNesting)
    (hp : t.BetweenTags p.offset) (he : t.elements[index]? = some e) :
    p.offset ≤ e.openStart ∨ e.openEnd ≤ p.offset ∧ e.firstInnerMarker ≤ p.marker := by
  refine (hp index e he).imp_right fun hend => ⟨hend, Nat.le_of_not_lt fun hlt => ?_⟩
  have hclosed := h.closed index e he
  -- The marker at the cut would be in the start tag.
  obtain ⟨m, hm⟩ : ∃ m, t.markers[p.marker]? = some m :=
    ⟨_, Array.getElem?_eq_getElem (Nat.lt_of_lt_of_le hlt hclosed.inner_le)⟩
  have hin := (hclosed.inner_iff p.marker m hm).mp hlt
  have hahead := hcuts.ahead p.marker m (Nat.le_refl _) hm
  omega

end Template

end HtmlTemplate
