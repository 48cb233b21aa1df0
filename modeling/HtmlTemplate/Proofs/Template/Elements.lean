import HtmlTemplate.Proofs.Template.Nesting

/-!
# Where elements stand among the markers

An element says where it stands twice, in literal bytes and in markers. This
module states that the two agree, and that wrappers do not cross the tags of an
element, so that a walk may jump from its start tag to its end tag.

Results:
1. `Element.Opened`, `Element.Waits`, `Element.Closed`: what is known of an
   element whose start tag has ended, while its end tag is waited for, and when
   it has been met.
2. `push`, `congr`: more markers change nothing about it.
3. `markContent`: nor does the content marker, which is met between the tags of the
   elements that wait, and behind those that are closed.
4. `Waits.close`: an end tag closes an element.
-/

namespace HtmlTemplate.Element

variable {ω δ : Type} {e : Element} {markers markers' : Array (Marker ω δ)} {m : Marker ω δ}

/-! ## 1. Start tags -/

/-- The start tag has ended. The markers before its end are those in front, and none
of those in the tag starts or ends a wrapper. -/
structure Opened (e : Element) (markers : Array (Marker ω δ)) : Prop where
  start_lt : e.openStart < e.openEnd
  inner_le : e.firstInnerMarker ≤ markers.size
  inner_iff : ∀ (i : Nat) (m : Marker ω δ), markers[i]? = some m →
    (i < e.firstInnerMarker ↔ m.position < e.openEnd)
  unmarked : ∀ (i : Nat) (m : Marker ω δ), markers[i]? = some m → e.openStart < m.position →
    m.position < e.openEnd → m.boundsWrapper = false

namespace Opened

theorem push (h : Opened e markers) (hm : e.openEnd ≤ m.position) : Opened e (markers.push m) := by
  refine ⟨h.start_lt, ?_, ?_, ?_⟩
  · rw [Array.size_push]
    exact Nat.le_succ_of_le h.inner_le
  · intro i n hn
    rcases getElem?_push_eq_some hn with hn | ⟨rfl, rfl⟩
    · exact h.inner_iff i n hn
    · exact iff_of_false (Nat.not_lt_of_le h.inner_le) (Nat.not_lt_of_le hm)
  · intro i n hn hs he
    rcases getElem?_push_eq_some hn with hn | ⟨rfl, rfl⟩
    · exact h.unmarked i n hn hs he
    · exact absurd he (Nat.not_lt_of_le hm)

theorem congr (h : Opened e markers) (ha : Alike markers markers') : Opened e markers' := by
  refine ⟨h.start_lt, ha.size_eq ▸ h.inner_le, ?_, ?_⟩
  · intro i n hn
    obtain ⟨m, hm, hp, -⟩ := ha.marker i n hn
    rw [hp]
    exact h.inner_iff i m hm
  · intro i n hn hs he
    obtain ⟨m, hm, hp, hb, -⟩ := ha.marker i n hn
    rw [hp] at hs he
    rw [hb]
    exact h.unmarked i m hm hs he

end Opened

/-! ## 2. Elements and the content marker -/

/-- How the content marker stands to an element whose end tag has not been met. -/
structure Faces (e : Element) (content? : Option Place) : Prop where
  inside : e.containsContent = true → ∃ x, content? = some x ∧ e.firstInnerMarker ≤ x.marker ∧
    e.openEnd ≤ x.offset
  before : e.containsContent = false → ∀ x, content? = some x → x.offset ≤ e.openStart

/-- How the content marker stands to an element: between its tags, or outside. -/
structure StandsTo (e : Element) (content? : Option Place) : Prop where
  inside : e.containsContent = true → ∃ x, content? = some x ∧ e.firstInnerMarker ≤ x.marker ∧
    x.marker ≤ e.nextMarker ∧ e.openEnd ≤ x.offset ∧ x.offset ≤ e.closeStart
  outside : e.containsContent = false → ∀ x, content? = some x →
    x.offset ≤ e.openStart ∨ (e.nextMarker ≤ x.marker ∧ e.closeEnd ≤ x.offset)

/-! ## 3. End tags -/

/-- The end tag is waited for since the wrapper depth `depth`: the `depth` outermost of
the open wrappers were open at the start tag. -/
structure Waits (e : Element) (markers : Array (Marker ω δ)) (opened : List (Option Nat))
    (content? : Option Place) (depth : Nat) : Prop extends Opened e markers, Faces e content? where
  depth_le : depth ≤ opened.length
  balanced : openBefore markers e.firstInnerMarker =
    (opened.drop (opened.length - depth)).filterMap id

/-- The end tag has been met, at most `size` bytes from the start. The markers behind the
element are those from `nextMarker` on, and the same wrappers are open at both tags. -/
structure Closed (e : Element) (markers : Array (Marker ω δ)) (size : Nat)
    (content? : Option Place) : Prop extends Opened e markers, StandsTo e content? where
  openEnd_le : e.openEnd ≤ e.closeStart
  closeStart_le : e.closeStart ≤ e.closeEnd
  closeEnd_le : e.closeEnd ≤ size
  inner_le_next : e.firstInnerMarker ≤ e.nextMarker
  next_le : e.nextMarker ≤ markers.size
  within : ∀ (i : Nat) (m : Marker ω δ), markers[i]? = some m → i < e.nextMarker →
    m.position ≤ e.closeStart
  behind : ∀ (i : Nat) (m : Marker ω δ), markers[i]? = some m → e.nextMarker ≤ i →
    e.closeEnd ≤ m.position
  balanced : openBefore markers e.nextMarker = openBefore markers e.firstInnerMarker

namespace Waits

variable {opened opened' : List (Option Nat)} {content? : Option Place} {depth : Nat}

/-- More wrappers are opened, or some are closed that were opened in the element. -/
theorem reopen (h : Waits e markers opened content? depth) (hdepth : depth ≤ opened'.length)
    (hdrop : opened'.drop (opened'.length - depth) = opened.drop (opened.length - depth)) :
    Waits e markers opened' content? depth :=
  { h with depth_le := hdepth, balanced := hdrop ▸ h.balanced }

/-- Only what a start tag says of the element matters. -/
theorem endClose (h : Waits e markers opened content? depth) (start stop next : Nat) :
    Waits (e.endClose start stop next) markers opened content? depth :=
  ⟨⟨h.start_lt, h.inner_le, h.inner_iff, h.unmarked⟩, ⟨h.inside, h.before⟩, h.depth_le, h.balanced⟩

theorem push (h : Waits e markers opened content? depth) (hm : e.openEnd ≤ m.position) :
    Waits e (markers.push m) opened content? depth :=
  { h.toOpened.push hm, h.toFaces with
    depth_le := h.depth_le
    balanced := by rw [openBefore_push _ _ h.inner_le, h.balanced] }

theorem congr (h : Waits e markers opened content? depth) (ha : Alike markers markers') :
    Waits e markers' opened content? depth :=
  { h.toOpened.congr ha, h.toFaces with
    depth_le := h.depth_le
    balanced := by rw [ha.openBefore_eq, h.balanced] }

/-- The content marker is met between the tags. -/
theorem markContent {place : Place} (h : Waits e markers opened none depth)
    (hmarker : place.marker = markers.size) (hend : e.openEnd ≤ place.offset) :
    Waits { e with containsContent := true } markers opened (some place) depth :=
  { h with
    inside := fun _ => ⟨place, rfl, hmarker ▸ h.inner_le, hend⟩
    before := fun hc => absurd hc (by simp) }

end Waits

namespace Closed

variable {size : Nat} {content? : Option Place}

theorem mono {size' : Nat} (h : Closed e markers size content?) (hle : size ≤ size') :
    Closed e markers size' content? :=
  { h with closeEnd_le := Nat.le_trans h.closeEnd_le hle }

theorem push (h : Closed e markers size content?) (hm : size ≤ m.position) :
    Closed e (markers.push m) size content? := by
  have hend : e.closeEnd ≤ m.position := Nat.le_trans h.closeEnd_le hm
  have hopen : e.openEnd ≤ m.position :=
    Nat.le_trans (Nat.le_trans h.openEnd_le h.closeStart_le) hend
  refine { h.toOpened.push hopen, h.toStandsTo with
    openEnd_le := h.openEnd_le
    closeStart_le := h.closeStart_le
    closeEnd_le := h.closeEnd_le
    inner_le_next := h.inner_le_next
    next_le := ?_
    within := ?_
    behind := ?_
    balanced := ?_ }
  · rw [Array.size_push]
    exact Nat.le_succ_of_le h.next_le
  · intro i n hn hi
    rcases getElem?_push_eq_some hn with hn | ⟨rfl, rfl⟩
    · exact h.within i n hn hi
    · exact absurd h.next_le (Nat.not_le_of_lt hi)
  · intro i n hn hi
    rcases getElem?_push_eq_some hn with hn | ⟨rfl, rfl⟩
    · exact h.behind i n hn hi
    · exact hend
  · rw [openBefore_push _ _ h.next_le, openBefore_push _ _ h.inner_le, h.balanced]

theorem congr (h : Closed e markers size content?) (ha : Alike markers markers') :
    Closed e markers' size content? := by
  refine { h.toOpened.congr ha, h.toStandsTo with
    openEnd_le := h.openEnd_le
    closeStart_le := h.closeStart_le
    closeEnd_le := h.closeEnd_le
    inner_le_next := h.inner_le_next
    next_le := ha.size_eq ▸ h.next_le
    within := ?_
    behind := ?_
    balanced := ?_ }
  · intro i n hn hi
    obtain ⟨m, hm, hp, -⟩ := ha.marker i n hn
    rw [hp]
    exact h.within i m hm hi
  · intro i n hn hi
    obtain ⟨m, hm, hp, -⟩ := ha.marker i n hn
    rw [hp]
    exact h.behind i m hm hi
  · rw [ha.openBefore_eq, ha.openBefore_eq, h.balanced]

/-- The content marker is met behind the element. -/
theorem markContent {place : Place} (h : Closed e markers size none)
    (hmarker : place.marker = markers.size) (hend : size ≤ place.offset) :
    Closed e markers size (some place) := by
  refine { h with inside := ?_, outside := fun _ x hx => .inr ?_ }
  · intro hc
    obtain ⟨x, hx, -⟩ := h.inside hc
    cases hx
  · cases hx
    exact ⟨hmarker ▸ h.next_le, Nat.le_trans h.closeEnd_le hend⟩

end Closed

/-- An end tag closes an element that is waited for at the same wrapper depth. -/
theorem Waits.close {opened : List (Option Nat)} {content? : Option Place} {start stop : Nat}
    (h : Waits e markers opened content? opened.length)
    (hopened : openBefore markers markers.size = opened.filterMap id) (hstart : e.openEnd ≤ start)
    (hstop : start ≤ stop)
    (hposition : ∀ (i : Nat) (m : Marker ω δ), markers[i]? = some m → m.position ≤ start)
    (hcontent : ∀ x, content? = some x → x.marker ≤ markers.size ∧ x.offset ≤ start) :
    (e.endClose start stop markers.size).Closed markers stop content? := by
  refine
    { start_lt := h.start_lt
      inner_le := h.inner_le
      inner_iff := h.inner_iff
      unmarked := h.unmarked
      inside := ?_
      outside := fun hc x hx => .inl (h.before hc x hx)
      openEnd_le := hstart
      closeStart_le := hstop
      closeEnd_le := Nat.le_refl _
      inner_le_next := h.inner_le
      next_le := Nat.le_refl _
      within := fun i m hm _ => hposition i m hm
      behind := ?_
      balanced := ?_ }
  · intro hc
    obtain ⟨x, hx, hinner, hend⟩ := h.inside hc
    exact ⟨x, hx, hinner, (hcontent x hx).1, hend, (hcontent x hx).2⟩
  · intro i m hm hi
    rw [Array.getElem?_eq_none hi] at hm
    cases hm
  · show openBefore markers markers.size = openBefore markers e.firstInnerMarker
    rw [h.balanced, hopened, Nat.sub_self, List.drop_zero]

end HtmlTemplate.Element
