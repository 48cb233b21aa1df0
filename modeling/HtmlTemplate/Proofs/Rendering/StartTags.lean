import HtmlTemplate.Proofs.Rendering.Onward
import HtmlTemplate.Proofs.Template.Apart

/-!
# Through start tags

A walk that comes to a start tag passes the markers in it one after the other. At each it writes the
literal bytes in front of it and runs its callback, so up to where it stands in the tag it has done
what a small program does, whose input are the markers and the literal bytes. All other steps lead
to places outside of start tags.

Results:
1. `Template.renderTag`: what is rendered of a start tag, as a program of its own.
2. `Template.Clear`: places outside of start tags at which a walk may go on.
3. `Transition.clear_or_passes`: a step leads to such a place, or over one marker.
4. `Reaches.onWay`, `CallsInTag.entered`: how a walk has come to where it stands in a start tag.
-/

namespace HtmlTemplate

open Render

variable {ω δ : Type}

/-! ## 1. Start tags -/

/-- Runs the callback of a marker in a start tag, and returns what it asks to drop. -/
def Action.callInTag (data : δ) : Action ω δ → Render ω AttributeScope
  | .plain run => do
    run data
    return {}
  | .attributes run _ => do
    let (_, scope) ← (run data).run {}
    return scope
  | .wrapperStart .. | .wrapperEnd _ => pure {}

/-- The callback returns, does not halt the response and does not ask to drop the element. -/
def Action.StaysInTag (action : Action ω δ) (data : δ) (s : Session ω) : Prop :=
  ∃ scope s', action.callInTag data s = .ok (scope, s') ∧ s'.response.halted = false ∧
    scope.skipElement = false

namespace Template

/-- Writes the literal bytes from the offset up to the marker, and runs its callback. -/
def passMarker (t : Template ω δ) (data : δ) (offset : Nat) (m : Marker ω δ) : Render ω Nat := do
  t.writeLiteral offset m.position
  let _ ← m.action.callInTag data
  return m.position

/-- Renders a part of a start tag, or all of it: the literal bytes from `start` up to `stop`, and
at each of the markers what its callback does. -/
def renderTag (t : Template ω δ) (data : δ) (markers : List (Marker ω δ)) (start stop : Nat) :
    Render ω Unit := do
  let offset ← markers.foldlM (t.passMarker data) start
  t.writeLiteral offset stop

/-- The markers from the index `i` up to `j`. -/
def markersBetween (t : Template ω δ) (i j : Nat) : List (Marker ω δ) :=
  (t.markers.extract i j).toList

/-- The markers between the two places are passed one after the other. -/
structure RendersTo (t : Template ω δ) (data : δ) (p : Place) (s : Session ω) (q : Place)
    (s' : Session ω) : Prop where
  marker_le : p.marker ≤ q.marker
  run_eq : (t.markersBetween p.marker q.marker).foldlM (t.passMarker data) p.offset s =
    .ok (q.offset, s')

variable {t : Template ω δ} {data : δ} {p q r : Place} {s s₁ s' : Session ω} {m : Marker ω δ}
  {i j k : Nat}

theorem markersBetween_self (t : Template ω δ) (i : Nat) : t.markersBetween i i = [] := by
  rw [markersBetween, Array.extract_eq_empty_of_le (Nat.min_le_left i _)]

theorem markersBetween_append (h : i ≤ j) (h' : j ≤ k) :
    t.markersBetween i j ++ t.markersBetween j k = t.markersBetween i k := by
  rw [markersBetween, markersBetween, ← Array.toList_append, Array.extract_append_extract,
    Nat.min_eq_left h, Nat.max_eq_right h', markersBetween]

theorem markersBetween_succ (hm : t.markers[i]? = some m) : t.markersBetween i (i + 1) = [m] := by
  obtain ⟨hi, rfl⟩ := Array.getElem?_eq_some_iff.mp hm
  rw [markersBetween, Array.extract_succ_right (Nat.lt_succ_self i) hi,
    Array.extract_eq_empty_of_le (Nat.min_le_left i _)]
  rfl

theorem RendersTo.refl (p : Place) (s : Session ω) : t.RendersTo data p s p s :=
  ⟨Nat.le_refl _, by rw [markersBetween_self]; rfl⟩

theorem RendersTo.trans (h : t.RendersTo data p s q s₁) (h' : t.RendersTo data q s₁ r s') :
    t.RendersTo data p s r s' := by
  refine ⟨Nat.le_trans h.marker_le h'.marker_le, ?_⟩
  rw [← markersBetween_append h.marker_le h'.marker_le, List.foldlM_append, bind_of_ok h.run_eq]
  exact h'.run_eq

/-- One marker is passed. -/
theorem RendersTo.one (hm : t.markers[p.marker]? = some m)
    (h : t.passMarker data p.offset m s = .ok (m.position, s')) :
    t.RendersTo data p s { marker := p.marker + 1, offset := m.position } s' := by
  refine ⟨Nat.le_succ _, ?_⟩
  rw [markersBetween_succ hm, List.foldlM_cons, bind_of_ok h]
  rfl

/-- The rest of the start tag is written behind the last marker. -/
theorem RendersTo.renderTag_eq (h : t.RendersTo data p s q s') {stop : Nat}
    (hle : q.offset ≤ stop) (hstop : stop ≤ t.html.size) :
    t.renderTag data (t.markersBetween p.marker q.marker) p.offset stop s =
      .ok ((), t.wrote q.offset stop s') := by
  rw [renderTag, bind_of_ok h.run_eq]
  exact t.writeLiteral_run hle hstop s'

/-! ## 2. Places outside of start tags -/

/-- The place is outside of all start tags, with the markers on their sides of it. -/
structure Clear (t : Template ω δ) (p : Place) : Prop extends t.Cuts p where
  behind : ∀ (i : Nat) (m : Marker ω δ), i < p.marker → t.markers[i]? = some m →
    m.position ≤ p.offset
  between : t.BetweenTags p.offset

variable {content? : Option Place} {maxNesting index : Nat} {e : Element}

/-- The place at the end tag of an element, or behind it. -/
theorem WellFormed.clear_element (h : t.WellFormed content? maxNesting) (hapart : t.Apart)
    (he : t.elements[index]? = some e) {offset : Nat} (hs : e.closeStart ≤ offset)
    (ho : offset ≤ e.closeEnd) : t.Clear { marker := e.nextMarker, offset := offset } where
  toCuts := h.cuts_element he ho
  behind i m hi hm := Nat.le_trans ((h.closed index e he).within i m hm hi) hs
  between := hapart.betweenTags he hs ho

/-- The place behind the start or the end of a wrapper. -/
theorem WellFormed.clear_succ (h : t.WellFormed content? maxNesting)
    (hm : t.markers[i]? = some m) (hb : m.boundsWrapper = true) :
    t.Clear { marker := i + 1, offset := m.position } where
  toCuts := h.cuts_succ hm
  behind j n hj hn := h.ordered.position_mono j i n m (Nat.le_of_lt_succ hj) hn hm
  between := h.betweenTags_marker hm hb

theorem clear_start (t : Template ω δ) : t.Clear t.start where
  toCuts := t.cuts_start
  behind _ _ hi _ := absurd hi (Nat.not_lt_zero _)
  between := t.betweenTags_zero

theorem WellFormed.clear_content (h : t.WellFormed (some p) maxNesting) : t.Clear p where
  toCuts := h.content_cuts p rfl
  behind i m hi hm := h.content_behind p rfl i m hi hm
  between := h.betweenTags_content

end Template

namespace Component

variable {c : Component ω δ} {data : δ} {cur₀ cur cur₁ cur' : Cursor ω}
  {s₀ s s₁ s' : Session ω} {m : Marker ω δ} {content? : Option Place} {index : Nat}
  {e : Element} {scope : AttributeScope}

/-! ## 3. Steps -/

/-- A step over one marker that neither starts nor ends a wrapper. -/
structure Passes (c : Component ω δ) (data : δ) (cur : Cursor ω) (s : Session ω)
    (cur' : Cursor ω) (s' : Session ω) : Prop where
  position_eq : ∃ m, c.template.markers[cur.marker]? = some m ∧ cur'.offset = m.position ∧
    cur.offset ≤ m.position
  marker_eq : cur'.marker = cur.marker + 1
  depth_eq : cur'.depth = cur.depth
  stack_eq : cur'.stack = cur.stack
  rendersTo : c.template.RendersTo data cur.place s cur'.place s'

theorem Arrives.passes (ha : c.Arrives cur s m cur₁ s₁)
    (hrun : m.action.callInTag data s₁ = .ok (scope, s')) (jump? : Option Jump) :
    c.Passes data cur s { cur₁.next with jump := jump? } s' := by
  obtain ⟨hle, hsize⟩ := ha.offset_le
  have hpass : c.template.passMarker data cur.offset m s = .ok (m.position, s') := by
    rw [Template.passMarker, bind_of_ok (c.template.writeLiteral_run hle hsize s)]
    exact bind_of_ok (ha.session_eq ▸ hrun)
  have hrenders := Template.RendersTo.one (p := cur.place) ha.marker_eq hpass
  have hm := ha.marker_eq
  obtain ⟨elements, tagMark, rfl⟩ := ha.cursor_eq
  exact ⟨⟨m, hm, rfl, hle⟩, rfl, rfl, rfl, hrenders⟩

theorem Arrives.passes_plain {run : δ → Render ω Unit} (ha : c.Arrives cur s m cur₁ s₁)
    (hm : m.action = .plain run) (hrun : run data s₁ = .ok ((), s')) :
    c.Passes data cur s cur₁.next s' :=
  ha.passes (by rw [hm]; exact bind_of_ok hrun) cur₁.jump

/-- A callback that asks to drop the content lets a jump be planned, unless the element has no
content. -/
theorem behindTag_eq (c : Component ω δ) (cur : Cursor ω) (e : Element) (scope : AttributeScope) :
    c.behindTag cur e scope = { cur.next with
      jump := if scope.skipContent ∧ e.hasContent then some (c.jumpOver e) else cur.jump } := by
  unfold behindTag planJump
  cases scope.skipContent <;> cases e.hasContent <;> rfl

theorem CallsInTag.callInTag (h : c.CallsInTag data cur s index e cur₁ scope s') :
    ∃ m s₁, c.Arrives cur s m cur₁ s₁ ∧ m.action.callInTag data s₁ = .ok (scope, s') := by
  obtain ⟨ha, hm, -, hrun⟩ := h
  exact ⟨_, _, ha, by rw [hm]; exact bind_of_ok hrun⟩

theorem CallsInTag.passes (h : c.CallsInTag data cur s index e cur₁ scope s') :
    c.Passes data cur s (c.behindTag cur₁ e scope) s' := by
  obtain ⟨m, s₁, ha, hcall⟩ := h.callInTag
  rw [behindTag_eq]
  exact ha.passes hcall _

/-- An attribute marker is in the start tag of its element. -/
theorem CallsInTag.inner (h : c.CallsInTag data cur s index e cur₁ scope s')
    (hw : c.WellFormed content?) (hp : c.Placed cur) : ∃ m s₁, c.Arrives cur s m cur₁ s₁ ∧
      e.openStart < m.position ∧ m.position < e.openEnd ∧ cur.marker < e.firstInnerMarker := by
  obtain ⟨ha, hm, he, -⟩ := h
  obtain ⟨hin, -, hinner⟩ := (ha.stands hw hp).inTag hw hm he
  have hmarker : cur.marker < e.firstInnerMarker := ha.marker_cursor ▸ hinner
  exact ⟨_, _, ha, ha.offset_cursor ▸ hin.start_lt,
    ((hw.closed index e he).inner_iff _ _ ha.marker_eq).mp hmarker, hmarker⟩

/-- A step leads to a place outside of all start tags, or over one marker. -/
theorem Transition.clear_or_passes (h : c.Transition data cur s (.goto cur') s')
    (hw : c.WellFormed content?) (hapart : c.template.Apart) (hp : c.Placed cur) :
    c.template.Clear cur'.place ∨ c.Passes data cur s cur' s' := by
  generalize hn : Next.goto cur' = next at h
  cases h with
  | jumpOut | elementOut | contentOut | finish => cases hn
  | jump hj =>
    cases hn
    obtain ⟨index, e, hin, -, rfl⟩ := hp.jump _ hj.jump_eq
    exact .inl (hw.clear_element hapart hin.element (Nat.le_refl _)
      (hw.closed index e hin.element).closeStart_le)
  | plain ha hm hrun =>
    obtain ⟨rfl, -⟩ := settled_eq_goto hn.symm
    exact .inr (ha.passes_plain hm hrun)
  | inTag hcalls =>
    obtain ⟨rfl, -⟩ := settled_eq_goto hn.symm
    exact .inr hcalls.passes
  | dropElement hcalls =>
    cases hn
    have he := hcalls.element_eq
    exact .inl (hw.clear_element hapart he (hw.closed _ _ he).closeStart_le (Nat.le_refl _))
  | wrapperStart hcalls =>
    obtain ⟨rfl, -⟩ := settled_eq_goto hn.symm
    obtain ⟨ha, hm, -, -⟩ := hcalls
    have hclear := hw.clear_succ ha.marker_eq (by simp [Marker.boundsWrapper, hm])
    obtain ⟨elements, tagMark, rfl⟩ := ha.cursor_eq
    exact .inl hclear
  | dropContent hcalls _ _ hmarker =>
    obtain ⟨rfl, -⟩ := settled_eq_goto hn.symm
    obtain ⟨hna, -, -⟩ := hcalls.stands_end hw hp hmarker
    exact .inl (hw.clear_succ hmarker (by simp [Marker.boundsWrapper, hna]))
  | wrapperEnd ha hm =>
    obtain ⟨rfl, -⟩ := settled_eq_goto hn.symm
    have hclear := hw.clear_succ ha.marker_eq (by simp [Marker.boundsWrapper, hm])
    obtain ⟨elements, tagMark, rfl⟩ := ha.cursor_eq
    exact .inl hclear
  | endBefore ha hm =>
    cases hn
    have hclear := hw.clear_succ ha.marker_eq (by simp [Marker.boundsWrapper, hm])
    obtain ⟨elements, tagMark, rfl⟩ := ha.cursor_eq
    exact .inl hclear

/-! ## 4. Into a start tag -/

/-- The walk comes to the start tag of the element: no byte of it has been written, and the
markers ahead are those from its first one on. -/
structure Enters (c : Component ω δ) (cur : Cursor ω) (e : Element) : Prop where
  offset_le : cur.offset ≤ e.openStart
  marker_le_iff : ∀ (i : Nat) (m : Marker ω δ), c.template.markers[i]? = some m →
    (cur.marker ≤ i ↔ e.openStart < m.position)

/-- The walk has come to the start tag, and from there it has passed one marker after the
other. -/
def Entered (c : Component ω δ) (data : δ) (cur₀ : Cursor ω) (s₀ : Session ω) (e : Element)
    (cur : Cursor ω) (s : Session ω) : Prop :=
  ∃ curₑ sₑ, c.Reaches data cur₀ s₀ curₑ sₑ ∧ c.Enters curₑ e ∧ c.Reaches data curₑ sₑ cur s ∧
    c.template.RendersTo data curₑ.place sₑ cur.place s

/-- What is known of a walk and the start tag of an element: the tag is ahead, or all its markers
are behind, or the walk has entered it. -/
structure OnWay (c : Component ω δ) (data : δ) (cur₀ : Cursor ω) (s₀ : Session ω) (e : Element)
    (cur : Cursor ω) (s : Session ω) : Prop where
  behind : ∀ (i : Nat) (m : Marker ω δ), i < cur.marker → c.template.markers[i]? = some m →
    m.position ≤ cur.offset
  tag : cur.offset ≤ e.openStart ∨ e.firstInnerMarker ≤ cur.marker ∨
    c.Entered data cur₀ s₀ e cur s

section OnWay

variable (hw : c.WellFormed content?)
include hw

theorem OnWay.of_clear (h : c.template.Clear cur.place)
    (he : c.template.elements[index]? = some e) : c.OnWay data cur₀ s₀ e cur s := by
  refine ⟨h.behind, ?_⟩
  rcases h.before_or_behind hw.toWellFormed h.between he with hbefore | ⟨-, hinner⟩
  · exact .inl hbefore
  · exact .inr (.inl hinner)

/-- The next marker is in the start tag, of which no byte has been written: it is the first one. -/
theorem OnWay.enters (h : c.OnWay data cur₀ s₀ e cur s)
    (hm : c.template.markers[cur.marker]? = some m) (hle : cur.offset ≤ e.openStart)
    (hlt : e.openStart < m.position) : c.Enters cur e := by
  refine ⟨hle, fun i n hn => ⟨fun hi => ?_, fun hn' => Nat.le_of_not_lt fun hi => ?_⟩⟩
  · exact Nat.lt_of_lt_of_le hlt (hw.ordered.position_mono _ _ _ _ hi hm hn)
  · exact absurd (Nat.lt_of_lt_of_le hn' (Nat.le_trans (h.behind i n hi hn) hle))
      (Nat.lt_irrefl _)

/-- Where the next marker is in the start tag, the walk has entered the tag. -/
theorem OnWay.entered (h : c.OnWay data cur₀ s₀ e cur s) (hreach : c.Reaches data cur₀ s₀ cur s)
    (hm : c.template.markers[cur.marker]? = some m) (hstart : e.openStart < m.position)
    (hinner : cur.marker < e.firstInnerMarker) : c.Entered data cur₀ s₀ e cur s := by
  rcases h.tag with hle | hge | hentered
  · exact ⟨cur, s, hreach, h.enters hw hm hle hstart, .refl, .refl _ _⟩
  · exact absurd hinner (Nat.not_lt_of_le hge)
  · exact hentered

theorem Passes.onWay (hpass : c.Passes data cur s cur' s') (h : c.OnWay data cur₀ s₀ e cur s)
    (hreach : c.Reaches data cur₀ s₀ cur s) (hstep : c.step data cur s = .ok (.goto cur', s')) :
    c.OnWay data cur₀ s₀ e cur' s' := by
  obtain ⟨m, hm, hoffset, -⟩ := hpass.position_eq
  refine ⟨fun i n hi hn => ?_, ?_⟩
  · rw [hoffset]
    rw [hpass.marker_eq] at hi
    exact hw.ordered.position_mono _ _ _ _ (Nat.le_of_lt_succ hi) hn hm
  · rcases Nat.lt_or_ge cur.marker e.firstInnerMarker with hinner | hinner
    · rcases Nat.lt_or_ge e.openStart m.position with hstart | hstart
      · obtain ⟨curₑ, sₑ, hreachₑ, henters, hbetween, hrenders⟩ :=
          h.entered hw hreach hm hstart hinner
        exact .inr (.inr ⟨curₑ, sₑ, hreachₑ, henters, hbetween.tail hstep,
          hrenders.trans hpass.rendersTo⟩)
      · exact .inl (hoffset ▸ hstart)
    · exact .inr (.inl (hpass.marker_eq ▸ Nat.le_succ_of_le hinner))

variable (hapart : c.template.Apart)
include hapart

/-- Wherever a walk stands, it has entered the start tag in which it is. -/
theorem Reaches.onWay (h : c.Reaches data cur₀ s₀ cur s) (hs₀ : s₀.response.halted = false)
    (hp : c.Placed cur₀) (hclear : c.template.Clear cur₀.place)
    (he : c.template.elements[index]? = some e) : c.OnWay data cur₀ s₀ e cur s := by
  refine (h.invariant (c.OnWay data cur₀ s₀ e) hs₀ (.of_clear hw hclear he) ?_).2
  intro cur s cur' s' hreach hs honway htrans
  rcases htrans.clear_or_passes hw hapart (hreach.placed hs₀ hw hp) with hclear' | hpass
  · exact .of_clear hw hclear' he
  · exact hpass.onWay hw honway hreach (htrans.step_eq hs)

/-- A callback in a start tag is called when the walk has entered the tag. -/
theorem CallsInTag.entered (hcalls : c.CallsInTag data cur s index e cur₁ scope s₁)
    (h : c.Reaches data cur₀ s₀ cur s) (hs₀ : s₀.response.halted = false) (hp : c.Placed cur₀)
    (hclear : c.template.Clear cur₀.place) : c.Entered data cur₀ s₀ e cur s := by
  have honway := h.onWay hw hapart hs₀ hp hclear hcalls.element_eq
  obtain ⟨m, s₂, ha, hstart, -, hinner⟩ := hcalls.inner hw (h.placed hs₀ hw hp)
  exact honway.entered hw h ha.marker_eq hstart hinner

end OnWay

end Component

end HtmlTemplate
