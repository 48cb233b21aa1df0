import HtmlTemplate.Proofs.Rendering.Dropping
import HtmlTemplate.Proofs.Rendering.StartTags

/-!
# Dropping the content of elements

A callback in a start tag may ask to drop the content of the element. Then nothing is dropped at
once: the walk goes on through the start tag, in which there may be more markers, and only plans to
jump when it comes to the end of the tag. It lands at the end tag, in the same wrappers. The place
where it jumps may be that of a marker, and so may the place where it lands.

Results:
1. `JumpsBehind.step`, `JumpsBehind.exists_endsTag`: a walk that has planned to jump.
2. `Component.run_keepingContent`: an element without content.
3. `Component.EmptiesElements`: what happens when the content of an element is dropped.
4. `emptiesElements_of_compile`: so it is in all walks over compiled templates.
-/

namespace HtmlTemplate

open Render

variable {ω δ : Type}

namespace Component

variable {c : Component ω δ} {data : δ} {cur cur₁ cur' : Cursor ω} {s s₁ s' : Session ω}
  {m : Marker ω δ} {content? : Option Place} {index : Nat} {e : Element} {scope : AttributeScope}

/-! ## 1. Through the rest of the start tag -/

/-- The walk stands in the start tag of the element, and has planned to jump at its end. -/
structure JumpsBehind (c : Component ω δ) (cur : Cursor ω) (index : Nat) (e : Element) : Prop
    extends c.InTag cur.place index e where
  offset_le : cur.offset ≤ e.openEnd
  jump_eq : cur.jump = some (c.jumpOver e)

/-- A start tag that begins in the component ends in it, with all its markers. -/
theorem WellFormed.inner_within (hw : c.WellFormed content?)
    (he : c.template.elements[index]? = some e) (hs : e.openStart < c.exit.offset) :
    e.firstInnerMarker ≤ c.exit.marker ∧ e.openEnd ≤ c.exit.offset := by
  have hclosed := hw.closed index e he
  by_cases hc : c.DropsContent e
  · obtain ⟨x, hx, hmarker, -, hend, -⟩ := hclosed.inside hc.2
    cases (hw.content_eq hc.1).symm.trans hx
    exact ⟨hmarker, hend⟩
  · obtain ⟨hmarker, hend⟩ := hw.ends_within he hs hc
    exact ⟨Nat.le_trans hclosed.inner_le_next hmarker,
      Nat.le_trans hclosed.openEnd_le (Nat.le_trans hclosed.closeStart_le hend)⟩

section JumpsBehind

variable (hw : c.WellFormed content?) (hapart : c.template.Apart)
include hw

theorem Passes.jumpsBehind (hpass : c.Passes data cur s cur' s')
    (he : c.template.elements[index]? = some e) (hstart : e.openStart < cur'.offset)
    (hinner : cur.marker < e.firstInnerMarker) (hjump : cur'.jump = some (c.jumpOver e)) :
    c.JumpsBehind cur' index e := by
  obtain ⟨m, hm, hoffset, -⟩ := hpass.position_eq
  refine ⟨⟨he, hstart, Nat.le_trans (Nat.le_of_eq hpass.marker_eq) hinner⟩, ?_, hjump⟩
  rw [hoffset]
  exact Nat.le_of_lt (((hw.closed index e he).inner_iff _ m hm).mp hinner)

/-- A callback has asked to drop the content, which the element has. -/
theorem CallsInTag.jumpsBehind (hcalls : c.CallsInTag data cur s index e cur₁ scope s₁)
    (hp : c.Placed cur) (hskip : scope.skipContent = true) (hc : e.hasContent = true) :
    c.JumpsBehind (c.behindTag cur₁ e scope) index e := by
  have hpass := hcalls.passes
  obtain ⟨m, s₂, ha, hstart, -, hinner⟩ := hcalls.inner hw hp
  rw [behindTag_eq, if_pos ⟨hskip, hc⟩] at hpass ⊢
  exact hpass.jumpsBehind hw hcalls.element_eq (ha.offset_cursor ▸ hstart) hinner rfl

/-- The next marker is in the start tag too. -/
theorem JumpsBehind.inner_of_arrives (h : c.JumpsBehind cur index e)
    (ha : c.Arrives cur s m cur₁ s₁) :
    e.openStart < m.position ∧ m.position < e.openEnd ∧ cur.marker < e.firstInnerMarker := by
  have hend := ha.before_jump _ h.jump_eq
  exact ⟨Nat.lt_of_lt_of_le h.start_lt ha.offset_le.1, hend,
    ((hw.closed index e h.element).inner_iff _ m ha.marker_eq).mpr hend⟩

/-- The jump is taken when no marker of the start tag is left. -/
theorem JumpsBehind.marker_eq_of_jumps {jump : Jump} (h : c.JumpsBehind cur index e)
    (hp : c.Placed cur) (hj : c.Jumps cur s jump cur₁ s₁) :
    jump = c.jumpOver e ∧ cur.marker = e.firstInnerMarker := by
  cases h.jump_eq.symm.trans hj.jump_eq
  refine ⟨rfl, Nat.le_antisymm h.marker_le (Nat.le_of_not_lt fun hlt => ?_)⟩
  have hclosed := hw.closed index e h.element
  have hexit := (hw.inner_within h.element (Nat.lt_of_lt_of_le h.start_lt hp.offset_le)).1
  obtain ⟨position, hnext, hle⟩ := hj.ahead
  have hposition := (nextPosition_eq_ok.mp hnext).2
  rw [if_pos (Nat.lt_of_lt_of_le hlt hexit)] at hposition
  obtain ⟨m, hm, rfl⟩ := hposition
  exact absurd ((hclosed.inner_iff _ m hm).mp hlt) (Nat.not_lt_of_le hle)

/-- The component does not end in the start tag. -/
theorem JumpsBehind.not_exits (h : c.JumpsBehind cur index e) (hp : c.Placed cur) :
    ¬c.Exits cur s cur₁ s₁ := by
  intro he
  have hexit := (hw.inner_within h.element (Nat.lt_of_lt_of_le h.start_lt hp.offset_le)).2
  exact absurd (he.before_jump _ h.jump_eq) (Nat.not_lt_of_le hexit)

/-- It is not where a wrapper starts or ends. -/
theorem JumpsBehind.unbounded (h : c.JumpsBehind cur index e) (hp : c.Placed cur)
    (ha : c.Arrives cur s m cur₁ s₁) : m.boundsWrapper ≠ true := by
  intro hb
  have hjump := (ha.stands hw hp).jump_eq_none hw hb
  obtain ⟨elements, tagMark, rfl⟩ := ha.cursor_eq
  cases h.jump_eq.symm.trans hjump

theorem JumpsBehind.passes_plain {run : δ → Render ω Unit} (h : c.JumpsBehind cur index e)
    (ha : c.Arrives cur s m cur₁ s₁) (hm : m.action = .plain run)
    (hrun : run data s₁ = .ok ((), s')) :
    c.Passes data cur s cur₁.next s' ∧ c.JumpsBehind cur₁.next index e := by
  obtain ⟨hstart, -, hinner⟩ := h.inner_of_arrives hw ha
  have hpass := ha.passes_plain hm hrun
  refine ⟨hpass, hpass.jumpsBehind hw h.element (ha.offset_cursor ▸ hstart) hinner ?_⟩
  obtain ⟨elements, tagMark, rfl⟩ := ha.cursor_eq
  exact h.jump_eq

include hapart

/-- A callback is called there for the same element. -/
theorem JumpsBehind.index_eq {index' : Nat} {e' : Element} (h : c.JumpsBehind cur index e)
    (hcalls : c.CallsInTag data cur s index' e' cur₁ scope s₁) (hp : c.Placed cur) :
    index' = index ∧ e' = e := by
  have he' := hcalls.element_eq
  obtain ⟨m, s₂, ha, hstart', hend', -⟩ := hcalls.inner hw hp
  obtain ⟨hstart, hend, -⟩ := h.inner_of_arrives hw ha
  have hindex : index' = index := by
    rcases Nat.lt_trichotomy index' index with hlt | heq | hgt
    · exact absurd (hapart.starts _ _ _ _ hlt he' h.element) (by omega)
    · exact heq
    · exact absurd (hapart.starts _ _ _ _ hgt h.element he') (by omega)
  subst hindex
  cases he'.symm.trans h.element
  exact ⟨rfl, rfl⟩

/-- The jump stays planned, whatever the callback asks. -/
theorem JumpsBehind.passes_inTag {index' : Nat} {e' : Element} (h : c.JumpsBehind cur index e)
    (hcalls : c.CallsInTag data cur s index' e' cur₁ scope s₁) (hp : c.Placed cur) :
    c.Passes data cur s (c.behindTag cur₁ e' scope) s₁ ∧
      c.JumpsBehind (c.behindTag cur₁ e' scope) index e := by
  obtain ⟨rfl, rfl⟩ := h.index_eq hw hapart hcalls hp
  have hpass := hcalls.passes
  obtain ⟨ha, -, -, -⟩ := hcalls
  obtain ⟨hstart, -, hinner⟩ := h.inner_of_arrives hw ha
  refine ⟨hpass, hpass.jumpsBehind hw h.element ?_ hinner ?_⟩
  · rw [behindTag_eq]
    exact ha.offset_cursor ▸ hstart
  · rw [behindTag_eq]
    obtain ⟨elements, tagMark, rfl⟩ := ha.cursor_eq
    simp only [h.jump_eq, ite_self]

/-- What a step does from there: it passes a marker of the start tag, or it leads to the end tag
or behind it. -/
theorem JumpsBehind.step (h : c.JumpsBehind cur index e) (hp : c.Placed cur)
    (htrans : c.Transition data cur s (.goto cur') s') :
    c.Passes data cur s cur' s' ∧ c.JumpsBehind cur' index e ∨
      e.nextMarker ≤ cur'.marker ∧ e.closeStart ≤ cur'.offset := by
  generalize hn : Next.goto cur' = next at htrans
  cases htrans with
  | jumpOut | elementOut | contentOut | finish => cases hn
  | jump hj =>
    cases hn
    obtain ⟨rfl, -⟩ := h.marker_eq_of_jumps hw hp hj
    exact .inr ⟨Nat.le_refl _, Nat.le_refl _⟩
  | plain ha hm hrun =>
    obtain ⟨rfl, -⟩ := settled_eq_goto hn.symm
    exact .inl (h.passes_plain hw ha hm hrun)
  | inTag hcalls =>
    obtain ⟨rfl, -⟩ := settled_eq_goto hn.symm
    exact .inl (h.passes_inTag hw hapart hcalls hp)
  | dropElement hcalls =>
    cases hn
    obtain ⟨rfl, rfl⟩ := h.index_eq hw hapart hcalls hp
    exact .inr ⟨Nat.le_refl _, (hw.closed _ _ h.element).closeStart_le⟩
  | wrapperStart hcalls | dropContent hcalls =>
    obtain ⟨ha, hm, -, -⟩ := hcalls
    exact absurd (by simp [Marker.boundsWrapper, hm]) (h.unbounded hw hp ha)
  | wrapperEnd ha hm | endBefore ha hm =>
    exact absurd (by simp [Marker.boundsWrapper, hm]) (h.unbounded hw hp ha)

end JumpsBehind

/-! ## 2. The jump -/

/-- From the cursor `cur` on, the walk passes the markers that are left in the start tag of the
element, and jumps at the cursor `cur'`. -/
structure EndsTag (c : Component ω δ) (data : δ) (cur : Cursor ω) (s : Session ω) (e : Element)
    (cur' : Cursor ω) (s' : Session ω) : Prop where
  reaches : c.Reaches data cur s cur' s'
  marker_eq : cur'.marker = e.firstInnerMarker
  depth_eq : cur'.depth = cur.depth
  stack_eq : cur'.stack = cur.stack
  rendersTo : c.template.RendersTo data cur.place s cur'.place s'
  jumps : c.Jumps cur' s' (c.jumpOver e) { cur' with offset := e.openEnd }
    (c.template.wrote cur'.offset e.openEnd s')

theorem Passes.endsTag (hpass : c.Passes data cur s cur₁ s₁)
    (hstep : c.step data cur s = .ok (.goto cur₁, s₁)) (h : c.EndsTag data cur₁ s₁ e cur' s') :
    c.EndsTag data cur s e cur' s' :=
  { h with
    reaches := .head (show c.GoesOn data (cur, s) (cur₁, s₁) from hstep) h.reaches
    depth_eq := h.depth_eq.trans hpass.depth_eq
    stack_eq := h.stack_eq.trans hpass.stack_eq
    rendersTo := hpass.rendersTo.trans h.rendersTo }

/-- The walk lands at the end tag. -/
theorem EndsTag.lands (h : c.EndsTag data cur s e cur₁ s₁) (hs : s.response.halted = false)
    (hc : ¬c.DropsContent e) : ∃ cur', c.Reaches data cur s cur'
      (c.template.wrote cur₁.offset e.openEnd s₁) ∧
      cur'.place = { marker := e.nextMarker, offset := e.closeStart } ∧
      cur'.depth = cur.depth ∧ cur'.stack = cur.stack ∧ cur'.jump = none := by
  have hk : (c.jumpOver e).swallows = false := by simpa [jumpOver, DropsContent] using hc
  have htrans : c.Transition data cur₁ s₁ _ _ := .jump h.jumps hk
  exact ⟨_, h.reaches.tail (htrans.step_eq (h.reaches.running hs)), rfl, h.depth_eq, h.stack_eq,
    rfl⟩

/-- Or it ends, if the content marker is dropped. -/
theorem EndsTag.swallows (h : c.EndsTag data cur s e cur₁ s₁) (hs : s.response.halted = false)
    (hc : c.DropsContent e) : ∃ stack, c.step data cur₁ s₁ = .ok (.stop
      (.swallowed { marker := e.nextMarker, offset := e.closeStart } cur.pending) stack,
      c.template.wrote cur₁.offset e.openEnd s₁) := by
  have hk : (c.jumpOver e).swallows = true := by simpa [jumpOver, DropsContent] using hc
  have htrans : c.Transition data cur₁ s₁ _ _ := .jumpOut h.jumps hk (.inr hc.1)
  have hpending : cur₁.pending = cur.pending := by
    rw [Cursor.pending, h.depth_eq, h.stack_eq, Cursor.pending]
  rw [← hpending]
  exact ⟨_, htrans.step_eq (h.reaches.running hs)⟩

/-- The callbacks in the start tag of the element that are called in the walk from the cursor, which
stands in the tag, return, do not halt the response and do not ask to drop the element. -/
def StaysInTag (c : Component ω δ) (data : δ) (cur₀ : Cursor ω) (s₀ : Session ω) (e : Element) :
    Prop :=
  ∀ cur s m cur₁ s₁, c.Reaches data cur₀ s₀ cur s → c.Arrives cur s m cur₁ s₁ →
    cur.marker < e.firstInnerMarker → m.action.StaysInTag data s₁

theorem StaysInTag.of_step (h : c.StaysInTag data cur s e)
    (hstep : c.step data cur s = .ok (.goto cur', s')) : c.StaysInTag data cur' s' e :=
  fun _ _ _ _ _ hlater => h _ _ _ _ _
    (.head (show c.GoesOn data (cur, s) (cur', s') from hstep) hlater)

section Jump

variable (hw : c.WellFormed content?) (hapart : c.template.Apart)
include hw

/-- The walk comes to the next marker, if there is one left in the start tag. -/
theorem JumpsBehind.exists_arrives (h : c.JumpsBehind cur index e) (hp : c.Placed cur)
    (hinner : cur.marker < e.firstInnerMarker) (s : Session ω) :
    ∃ m cur₁ s₁, c.Arrives cur s m cur₁ s₁ := by
  have hclosed := hw.closed index e h.element
  have hexit := (hw.inner_within h.element (Nat.lt_of_lt_of_le h.start_lt hp.offset_le)).1
  have hm := Array.getElem?_eq_getElem (Nat.lt_of_lt_of_le hinner hclosed.inner_le)
  obtain ⟨elements, tagMark, hrun⟩ := c.template.passTags_run (hw.ordered.position_le _ _ hm)
    cur.elements cur (hp.cuts.ahead _ _ (Nat.le_refl _) hm) s
  refine ⟨_, _, _, Nat.lt_of_lt_of_le hinner hexit, hm, fun jump hj => ?_, hrun⟩
  cases h.jump_eq.symm.trans hj
  exact (hclosed.inner_iff _ _ hm).mp hinner

/-- It comes to the jump, if there is none. -/
theorem JumpsBehind.jumps (h : c.JumpsBehind cur index e) (hp : c.Placed cur)
    (hinner : cur.marker = e.firstInnerMarker) (s : Session ω) :
    c.Jumps cur s (c.jumpOver e) { cur with offset := e.openEnd }
      (c.template.wrote cur.offset e.openEnd s) := by
  have hclosed := hw.closed index e h.element
  have hend := (hw.inner_within h.element (Nat.lt_of_lt_of_le h.start_lt hp.offset_le)).2
  have hsize := Nat.le_trans hclosed.openEnd_le (Nat.le_trans hclosed.closeStart_le
    hclosed.closeEnd_le)
  refine ⟨h.jump_eq, ?_, c.template.advance_run cur h.offset_le hsize s⟩
  by_cases hlt : cur.marker < c.exit.marker
  · have hm := Array.getElem?_eq_getElem (Nat.lt_of_lt_of_le hlt hw.cuts_exit.marker_le)
    have hnext : c.nextPosition cur s = .ok (_, s) :=
      nextPosition_eq_ok.mpr ⟨rfl, (if_pos hlt).mpr ⟨_, hm, rfl⟩⟩
    refine ⟨_, hnext, Nat.le_of_not_lt fun hbefore => ?_⟩
    have hlt' := (hclosed.inner_iff _ _ hm).mpr hbefore
    exact Nat.ne_of_lt hlt' hinner
  · have hnext : c.nextPosition cur s = .ok (c.exit.offset, s) :=
      nextPosition_eq_ok.mpr ⟨rfl, by rw [if_neg hlt]⟩
    exact ⟨_, hnext, hend⟩

include hapart

theorem JumpsBehind.exists_step (h : c.JumpsBehind cur index e) (hp : c.Placed cur)
    (hinner : cur.marker < e.firstInnerMarker) (hstay : c.StaysInTag data cur s e) :
    ∃ cur' s', c.Transition data cur s (.goto cur') s' ∧ s'.response.halted = false ∧
      c.Passes data cur s cur' s' ∧ c.JumpsBehind cur' index e := by
  obtain ⟨m, cur₁, s₁, ha⟩ := h.exists_arrives hw hp hinner s
  obtain ⟨scope, s', hcall, hs', hk⟩ := hstay _ _ _ _ _ .refl ha hinner
  have hbounds := h.unbounded hw hp ha
  cases hm : m.action with
  | plain run =>
    rw [hm] at hcall
    obtain ⟨⟨⟩, s₂, hrun, hpure⟩ := ok_of_bind hcall
    cases hpure
    have htrans := Transition.plain ha hm hrun
    rw [settled_of_running _ hs'] at htrans
    exact ⟨_, _, htrans, hs', h.passes_plain hw ha hm hrun⟩
  | attributes run i =>
    rw [hm] at hcall
    obtain ⟨⟨⟨⟩, scope'⟩, s₂, hrun, hpure⟩ := ok_of_bind hcall
    cases hpure
    obtain ⟨e', he', -⟩ := hw.owner _ _ _ _ ha.marker_eq hm
    have hcalls := CallsInTag.intro ha hm he' hrun
    have htrans := Transition.inTag hcalls fun _ => hk
    rw [settled_of_running _ hs'] at htrans
    exact ⟨_, _, htrans, hs', h.passes_inTag hw hapart hcalls hp⟩
  | wrapperStart | wrapperEnd => exact absurd (by simp [Marker.boundsWrapper, hm]) hbounds

/-- A walk that has planned to jump comes to the end of the start tag. -/
theorem JumpsBehind.exists_endsTag (h : c.JumpsBehind cur index e) (hp : c.Placed cur)
    (hs : s.response.halted = false) (hstay : c.StaysInTag data cur s e) :
    ∃ cur' s', c.EndsTag data cur s e cur' s' := by
  -- On the number of markers that are left in the tag.
  induction hn : e.firstInnerMarker - cur.marker generalizing cur s with
  | zero =>
    have hmarker := Nat.le_antisymm h.marker_le (Nat.le_of_sub_eq_zero hn)
    exact ⟨cur, s, .refl, hmarker, rfl, rfl, .refl _ _, h.jumps hw hp hmarker s⟩
  | succ n ih =>
    have hinner : cur.marker < e.firstInnerMarker := by omega
    obtain ⟨cur₁, s₁, htrans, hs₁, hpass, hbehind⟩ := h.exists_step hw hapart hp hinner hstay
    have hstep := htrans.step_eq hs
    obtain ⟨cur', s', hends⟩ := ih hbehind (htrans.placed hw hp) hs₁ (hstay.of_step hstep)
      (by rw [hpass.marker_eq]; omega)
    exact ⟨cur', s', hpass.endsTag hstep hends⟩

/-- Once it has planned to jump, a walk stands in the start tag or behind the content. -/
theorem JumpsBehind.inside_or_behind (h : c.JumpsBehind cur index e) (hp : c.Placed cur)
    (hs : s.response.halted = false) (hreach : c.Reaches data cur s cur' s') :
    c.JumpsBehind cur' index e ∨ e.nextMarker ≤ cur'.marker ∧ e.closeStart ≤ cur'.offset := by
  refine (hreach.invariant (fun cur' _ => c.JumpsBehind cur' index e ∨
    e.nextMarker ≤ cur'.marker ∧ e.closeStart ≤ cur'.offset) hs (.inl h) ?_).2
  intro cur₁ s₁ cur₂ s₂ hreach₁ _ hknown htrans
  have hp₁ := hreach₁.placed hs hw hp
  rcases hknown with h | ⟨hmarker, hoffset⟩
  · exact (h.step hw hapart hp₁ htrans).imp_left And.right
  · have hb := htrans.before hw hp₁
    exact .inr ⟨Nat.le_trans hmarker hb.marker_le, Nat.le_trans hoffset hb.offset_le⟩

end Jump

end Component

/-! ## 3. Elements without content -/

/-- Does what the callback does, but does not ask to drop the content. -/
def AttributeRender.keepingContent (run : AttributeRender ω Unit) : AttributeRender ω Unit := do
  run
  modify fun scope => { scope with skipContent := false }

/-- The action with no callback in the start tag of the element that asks to drop its content. -/
def Action.keepingContent (index : Nat) : Action ω δ → Action ω δ
  | .attributes run element =>
    .attributes (if element = index then fun data => (run data).keepingContent else run) element
  | action => action

def Marker.keepingContent (m : Marker ω δ) (index : Nat) : Marker ω δ :=
  { m with action := m.action.keepingContent index }

/-- The template with no callback in the start tag of the element that asks to drop its content. -/
def Template.keepingContent (t : Template ω δ) (index : Nat) : Template ω δ :=
  { t with markers := t.markers.map (·.keepingContent index) }

def Component.keepingContent (c : Component ω δ) (index : Nat) : Component ω δ :=
  { c with template := c.template.keepingContent index }

section KeepingContent

variable {c : Component ω δ} {data : δ} {index : Nat} {e : Element}

theorem AttributeRender.run_keepingContent (run : AttributeRender ω Unit)
    (scope : AttributeScope) : run.keepingContent.run scope = (do
      let p ← run.run scope
      return ((), { p.2 with skipContent := false }) : Render ω (Unit × AttributeScope)) :=
  rfl

theorem Template.marker_keepingContent (t : Template ω δ) (index i : Nat) :
    (t.keepingContent index).marker i = (·.keepingContent index) <$> t.marker i := by
  rw [marker_eq_elim, marker_eq_elim, keepingContent, Array.getElem?_map]
  cases t.markers[i]? <;> rfl

theorem Template.passTags_keepingContent (t : Template ω δ) (index limit : Nat)
    (es : List Element) (cur : Cursor ω) :
    (t.keepingContent index).passTags limit es cur = t.passTags limit es cur := by
  induction es generalizing cur with
  | nil => rfl
  | cons e rest ih =>
    simp only [passTags, ih]
    rfl

namespace Component

theorem nextPosition_keepingContent (c : Component ω δ) (index : Nat) (cur : Cursor ω) :
    (c.keepingContent index).nextPosition cur = c.nextPosition cur := by
  simp only [nextPosition, keepingContent, Template.marker_keepingContent, bind_map_left]
  rfl

theorem dropContent_keepingContent (c : Component ω δ) (index : Nat) (cur : Cursor ω)
    (closing? : Option Nat) :
    (c.keepingContent index).dropContent cur closing? = c.dropContent cur closing? := by
  cases closing? with
  | none => rfl
  | some closing =>
    simp only [dropContent, keepingContent, Template.marker_keepingContent, bind_map_left]
    rfl

/-- If the element has no content, then it is no matter whether a callback asks to drop it. -/
theorem runAttributes_keepingContent (hc : e.hasContent = false) (cur : Cursor ω)
    (run : AttributeRender ω Unit) :
    (c.keepingContent index).runAttributes cur run.keepingContent e =
      c.runAttributes cur run e := by
  funext s
  have hkeep := congrFun (run.run_keepingContent {}) s
  cases hrun : run.run {} s with
  | error fault =>
    rw [bind_of_error hrun] at hkeep
    rw [runAttributes, bind_of_error hkeep, runAttributes, bind_of_error hrun]
  | ok p =>
    obtain ⟨⟨⟨⟩, scope⟩, s'⟩ := p
    rw [bind_of_ok hrun] at hkeep
    rw [runAttributes_run hkeep, runAttributes_run hrun, behindTag_eq, behindTag_eq]
    simp only [hc, Bool.false_eq_true, and_false, if_false]
    rfl

section

variable (he : c.template.elements[index]? = some e) (hc : e.hasContent = false)
include he hc

theorem act_keepingContent (data : δ) (cur : Cursor ω) (m : Marker ω δ) :
    (c.keepingContent index).act data cur (m.keepingContent index) = c.act data cur m := by
  obtain ⟨name, span, action⟩ := m
  cases action with
  | plain run => rfl
  | attributes run element =>
    by_cases helement : element = index
    · subst helement
      have hfound : c.template.element element = (pure e : Render ω Element) := by
        rw [Template.element, he]
      have hfound' : (c.keepingContent element).template.element element =
          (pure e : Render ω Element) := hfound
      simp only [act, Marker.keepingContent, Action.keepingContent, if_pos, hfound, hfound',
        pure_bind]
      exact runAttributes_keepingContent hc cur (run data)
    · simp only [act, Marker.keepingContent, Action.keepingContent, if_neg helement]
      rfl
  | wrapperStart run closing? =>
    simp only [act, Marker.keepingContent, Action.keepingContent, runWrapperStart,
      dropContent_keepingContent]
  | wrapperEnd opening => rfl

theorem visit_keepingContent (data : δ) (cur : Cursor ω) :
    (c.keepingContent index).visit data cur = c.visit data cur := by
  simp only [visit]
  show (if cur.marker < c.exit.marker then _ else c.finish cur) = _
  congr 1
  show ((c.template.keepingContent index).marker cur.marker >>= _) = _
  rw [Template.marker_keepingContent, bind_map_left]
  refine bind_congr fun m => ?_
  show ((c.template.keepingContent index).passTags m.position cur.elements cur >>= _) = _
  rw [Template.passTags_keepingContent]
  refine bind_congr fun cur₁ => bind_congr fun cur₂ => bind_congr fun halted => ?_
  rw [act_keepingContent he hc]

theorem step_keepingContent (data : δ) (cur : Cursor ω) :
    (c.keepingContent index).step data cur = c.step data cur := by
  simp only [step, nextPosition_keepingContent, visit_keepingContent he hc]
  rfl

/-- The walk is the same. -/
theorem loop_keepingContent (data : δ) (cur : Cursor ω) :
    (c.keepingContent index).loop data cur = c.loop data cur := by
  fun_induction c.loop data cur with
  | case1 cur ih =>
    rw [loop, step_keepingContent he hc]
    refine bind_congr fun next => ?_
    cases next with
    | stop outcome stack => rfl
    | goto cur' =>
      show (if c.remaining cur' < c.remaining cur then _ else _) =
        if c.remaining cur' < c.remaining cur then _ else _
      split
      · next hlt => exact ih cur' hlt
      · rfl

theorem run_keepingContent (data : δ) (place : Place) :
    (c.keepingContent index).run data place = c.run data place := by
  simp only [run, walk, loop_keepingContent he hc]
  rfl

end

end Component

end KeepingContent

/-! ## 4. Dropped content -/

namespace Component

variable {c : Component ω δ} {data : δ} {cur cur₁ : Cursor ω} {s₀ s s₁ : Session ω}
  {content? : Option Place} {place : Place} {index : Nat} {e : Element} {scope : AttributeScope}

/-- A step from the cursor writes the literal bytes from there up to the offset. -/
inductive WritesUpTo (c : Component ω δ) (cur : Cursor ω) (s : Session ω) : Nat → Prop
  | marker {m : Marker ω δ} {cur₁ : Cursor ω} {s₁ : Session ω} :
      c.Arrives cur s m cur₁ s₁ → WritesUpTo c cur s m.position
  | jump {jump : Jump} {cur₁ : Cursor ω} {s₁ : Session ω} :
      c.Jumps cur s jump cur₁ s₁ → WritesUpTo c cur s jump.start
  | exit {cur₁ : Cursor ω} {s₁ : Session ω} :
      c.Exits cur s cur₁ s₁ → WritesUpTo c cur s c.exit.offset

/-- The content of the element `e` is dropped in a run from the place with the session `s₀`, because
a callback at the marker to which the walk has come at the cursor `cur` has asked for that. The
session is `s'` when all of the start tag has been rendered. -/
structure DropsBetween (c : Component ω δ) (data : δ) (place : Place) (s₀ : Session ω)
    (cur : Cursor ω) (s : Session ω) (e : Element) (s' : Session ω) : Prop where
  /-- From where the walk has come to the start tag, all its literal bytes are written, and the
  callbacks of all its markers are run in order, those behind the one that has asked too. -/
  startTag : ∃ cur₁ s₁,
    c.Reaches data (c.cursorAt place (EndingStack.ofDepth c.maxNesting)) s₀ cur₁ s₁ ∧
    c.Enters cur₁ e ∧ c.Reaches data cur₁ s₁ cur s ∧
    c.template.renderTag data (c.template.markersBetween cur₁.marker e.firstInnerMarker)
      cur₁.offset e.openEnd s₁ = .ok ((), s')
  /-- Then the walk goes on at the end tag, in the same wrappers. -/
  endTag : ¬c.DropsContent e → (∃ cur', c.Reaches data cur s cur' s' ∧
      cur'.place = { marker := e.nextMarker, offset := e.closeStart } ∧
      cur'.depth = cur.depth ∧ cur'.stack = cur.stack ∧ cur'.jump = none) ∧
    e.nextMarker ≤ c.exit.marker ∧ e.closeStart ≤ c.exit.offset
  /-- Or the run ends, because the content marker is dropped, and rendering is to go on there. -/
  swallows : c.DropsContent e → c.run data place s₀ =
    .ok (.swallowed { marker := e.nextMarker, offset := e.closeStart } cur.pending, s')
  /-- No marker between the tags is visited any more. -/
  unvisited : ∀ next s₁ cur' s₂ m cur₃ s₃, c.step data cur s = .ok (.goto next, s₁) →
    c.Reaches data next s₁ cur' s₂ → c.Arrives cur' s₂ m cur₃ s₃ →
    cur'.marker < e.firstInnerMarker ∨ e.nextMarker ≤ cur'.marker
  /-- No literal byte between the tags is written any more. -/
  unwritten : ∀ next s₁ cur' s₂ stop, c.step data cur s = .ok (.goto next, s₁) →
    c.Reaches data next s₁ cur' s₂ → c.WritesUpTo cur' s₂ stop →
    stop ≤ e.openEnd ∨ e.closeStart ≤ cur'.offset

/-- In all runs from the place, the content of an element is dropped when a callback in its start
tag asks for that, if this callback and those behind it in the tag return, do not halt the response
and do not ask to drop the element itself. An element without content is rendered as if none had
asked. -/
structure EmptiesElements (c : Component ω δ) (data : δ) (place : Place) : Prop where
  dropsBetween : ∀ (s₀ : Session ω) (cur : Cursor ω) (s : Session ω) (index : Nat) (e : Element)
    (cur₁ : Cursor ω) (scope : AttributeScope) (s₁ : Session ω),
    s₀.response.halted = false →
    c.Reaches data (c.cursorAt place (EndingStack.ofDepth c.maxNesting)) s₀ cur s →
    c.CallsInTag data cur s index e cur₁ scope s₁ → scope.skipContent = true →
    c.StaysInTag data cur s e → e.hasContent = true →
    ∃ s', c.DropsBetween data place s₀ cur s e s'
  unchanged : ∀ (index : Nat) (e : Element), c.template.elements[index]? = some e →
    e.hasContent = false → (c.keepingContent index).run data place = c.run data place

section Drops

variable (hw : c.WellFormed content?) (hapart : c.template.Apart)
include hw hapart

/-- From a callback that asks to drop the content the walk comes to the end of the start tag. -/
theorem CallsInTag.exists_endsTag (hcalls : c.CallsInTag data cur s index e cur₁ scope s₁)
    (hp : c.Placed cur) (hs : s.response.halted = false) (hskip : scope.skipContent = true)
    (hc : e.hasContent = true) (hstay : c.StaysInTag data cur s e) :
    s₁.response.halted = false ∧ c.Transition data cur s (.goto (c.behindTag cur₁ e scope)) s₁ ∧
      ∃ cur₂ s₂, c.EndsTag data cur s e cur₂ s₂ := by
  obtain ⟨m, s₂, ha, hcall⟩ := hcalls.callInTag
  obtain ⟨-, -, -, -, -, hinner⟩ := hcalls.inner hw hp
  obtain ⟨scope', s₁', hcall', hs₁, hk⟩ := hstay _ _ _ _ _ .refl ha hinner
  cases hcall.symm.trans hcall'
  have htrans := Transition.inTag hcalls fun _ => hk
  rw [settled_of_running _ hs₁] at htrans
  have hstep := htrans.step_eq hs
  obtain ⟨cur₃, s₃, hends⟩ := (hcalls.jumpsBehind hw hp hskip hc).exists_endsTag hw hapart
    (htrans.placed hw hp) hs₁ (hstay.of_step hstep)
  exact ⟨hs₁, htrans, cur₃, s₃, hcalls.passes.endsTag hstep hends⟩

omit hapart in
/-- A run that drops the content marker ends where it does so. -/
theorem EndsTag.run_eq (h : c.EndsTag data cur s e cur₁ s₁) (hs₀ : s₀.response.halted = false)
    (hreach : c.Reaches data (c.cursorAt c.entry (EndingStack.ofDepth c.maxNesting)) s₀ cur s)
    (hc : c.DropsContent e) : c.run data c.entry s₀ =
      .ok (.swallowed { marker := e.nextMarker, offset := e.closeStart } cur.pending,
        c.template.wrote cur₁.offset e.openEnd s₁) := by
  obtain ⟨stack, hstop⟩ := h.swallows (hreach.running hs₀) hc
  have hv : c.Visits data s₀ cur₁ s₁ := ⟨hs₀, hreach.trans h.reaches⟩
  rw [run, isHalted_bind, hs₀]
  exact bind_of_ok ((hv.loop_eq hw).trans (loop_of_stop hstop))

/-- What is dropped between the tags of an element. -/
theorem dropsBetween (hbegins : c.BeginsAt place) (hclear : c.template.Clear place)
    (hplace : c.part = .preContent → place = c.entry) (hs₀ : s₀.response.halted = false)
    (hreach : c.Reaches data (c.cursorAt place (EndingStack.ofDepth c.maxNesting)) s₀ cur s)
    (hcalls : c.CallsInTag data cur s index e cur₁ scope s₁) (hskip : scope.skipContent = true)
    (hstay : c.StaysInTag data cur s e) (hc : e.hasContent = true) :
    ∃ s', c.DropsBetween data place s₀ cur s e s' := by
  have hp := hreach.placed hs₀ hw hbegins.placed
  have hs := hreach.running hs₀
  obtain ⟨hs₁, htrans, cur₂, s₂, hends⟩ := hcalls.exists_endsTag hw hapart hp hs hskip hc hstay
  obtain ⟨curₑ, sₑ, hreachₑ, henters, hbetween, hrenders⟩ :=
    hcalls.entered hw hapart hreach hs₀ hbegins.placed hclear
  obtain ⟨hle, hsize, -⟩ := Template.advance_eq_wrote hends.jumps.run_eq
  have htag := (hrenders.trans hends.rendersTo).renderTag_eq hle hsize
  rw [show cur₂.place.marker = e.firstInnerMarker from hends.marker_eq] at htag
  have hafter : ∀ next s₁' cur' s₂, c.step data cur s = .ok (.goto next, s₁') →
      c.Reaches data next s₁' cur' s₂ → c.Placed cur' ∧
        (c.JumpsBehind cur' index e ∨ e.nextMarker ≤ cur'.marker ∧ e.closeStart ≤ cur'.offset) := by
    intro next s₁' cur' s₂ hnext hlater
    cases hnext.symm.trans (htrans.step_eq hs)
    have hp₁ := htrans.placed hw hp
    exact ⟨hlater.placed hs₁ hw hp₁, (hcalls.jumpsBehind hw hp hskip hc).inside_or_behind hw hapart
      hp₁ hs₁ hlater⟩
  refine ⟨_, ⟨curₑ, sₑ, hreachₑ, henters, hbetween, htag⟩, fun hout => ?_, fun hin => ?_, ?_, ?_⟩
  · obtain ⟨m, s₃, ha, hstart, -⟩ := hcalls.inner hw hp
    have hoffset := (ha.stands hw hp).offset_le
    have hwithin := hw.ends_within hcalls.element_eq
      (Nat.lt_of_lt_of_le hstart (ha.offset_cursor ▸ hoffset)) hout
    exact ⟨hends.lands hs hout, hwithin.1,
      Nat.le_trans (hw.closed index e hcalls.element_eq).closeStart_le hwithin.2⟩
  · obtain rfl := hplace hin.1
    exact hends.run_eq hw hs₀ hreach hin
  · intro next s₁' cur' s₂ m cur₃ s₃ hnext hlater ha
    obtain ⟨-, hinside | hbehind⟩ := hafter _ _ _ _ hnext hlater
    · exact .inl (hinside.inner_of_arrives hw ha).2.2
    · exact .inr hbehind.1
  · intro next s₁' cur' s₂ stop hnext hlater hwrites
    obtain ⟨hp', hinside | hbehind⟩ := hafter _ _ _ _ hnext hlater
    · refine .inl ?_
      cases hwrites with
      | marker ha => exact Nat.le_of_lt (hinside.inner_of_arrives hw ha).2.1
      | jump hj =>
        obtain ⟨rfl, -⟩ := hinside.marker_eq_of_jumps hw hp' hj
        exact Nat.le_refl _
      | exit he => exact absurd he (hinside.not_exits hw hp')
    · exact .inr hbehind.2

theorem emptiesElements (hbegins : c.BeginsAt place) (hclear : c.template.Clear place)
    (hplace : c.part = .preContent → place = c.entry) : c.EmptiesElements data place where
  dropsBetween _ _ _ _ _ _ _ _ hs₀ hreach hcalls hskip hstay hc :=
    dropsBetween hw hapart hbegins hclear hplace hs₀ hreach hcalls hskip hstay hc
  unchanged _ _ he hc := run_keepingContent he hc data place

end Drops

theorem clear_entry (hw : c.WellFormed content?) : c.template.Clear c.entry := by
  cases hw.part with
  | whole _ hentry | preContent _ hentry => exact hentry ▸ c.template.clear_start
  | postContent => exact hw.clear_content

end Component

/-! ## 5. Compiled templates -/

section Compiled

variable {source : String} {declarations : List (Declaration ω δ)} {w : Wrapper ω δ} {data : δ}
  {place : Place}

theorem Wrapper.ResumesAt.clear (h : Wrapper.compile source declarations = .ok w)
    (hplace : w.ResumesAt data place) : w.template.Clear place := by
  have hw := Wrapper.wellFormed_of_compile h
  rcases hplace.content_or_leadsTo h with rfl | ⟨skip, hleads, hbetween⟩
  · exact Template.WellFormed.clear_content hw
  · exact ⟨hleads.resumable.toCuts, fun i m hi hm => hleads.behind i m hm hi, hbetween⟩

end Compiled

/-- Whenever a callback in a start tag of a compiled template asks to drop the content of the
element, and none asks to drop the element or halts the response, all of the start tag is rendered,
with all markers that are left in it. Then rendering goes on at the end tag, in the same wrappers:
in a component, and in the part of a wrapper before its content marker. If the element holds that,
then this part ends, and the part behind it is resumed at the end tag, and goes on from there. -/
theorem emptiesElements_of_compile (source : String) (declarations : List (Declaration ω δ))
    (data : δ) :
    (∀ c, Component.compile source declarations = .ok c → c.EmptiesElements data c.entry) ∧
    ∀ w, Wrapper.compile source declarations = .ok w →
      w.preContent.EmptiesElements data w.preContent.entry ∧
      ∀ place, w.ResumesAt data place → w.postContent.EmptiesElements data place ∧
        ∀ (s₀ : Session ω) (cur : Cursor ω) (s : Session ω), s₀.response.halted = false →
          w.postContent.Reaches data
            (w.postContent.cursorAt place (EndingStack.ofDepth w.maxNesting)) s₀ cur s →
          place.marker ≤ cur.marker ∧ place.offset ≤ cur.offset := by
  refine ⟨fun c h => ?_, fun w h => ?_⟩
  · have hw := Component.wellFormed_of_compile h
    exact Component.emptiesElements hw (Component.apart_of_compile h) (Component.beginsAt_entry hw)
      (Component.clear_entry hw) fun _ => rfl
  · have hw := Wrapper.wellFormed_of_compile h
    have hapart := Wrapper.apart_of_compile h
    refine ⟨Component.emptiesElements hw.preContent hapart (Component.beginsAt_entry hw.preContent)
      (Component.clear_entry hw.preContent) fun _ => rfl, fun place hplace => ?_⟩
    have hbegins := hplace.beginsAt h
    refine ⟨Component.emptiesElements hw.postContent hapart hbegins (hplace.clear h) nofun,
      fun s₀ cur s hs₀ hreach => ?_⟩
    have hb := Component.Reaches.before hreach hs₀ hw.postContent hbegins.placed
    exact ⟨hb.marker_le, hb.offset_le⟩

/-- The source `x<p ${empty} title="${label}" ${flag}>t${lost}${}u</p>y`. -/
def emptiedFrameSource : String :=
  "x<p $\x7bempty\x7d title=\"$\x7blabel\x7d\" $\x7bflag\x7d>t$\x7blost\x7d$\x7b\x7du</p>y"

/-- Its declarations: the first callback in the start tag asks to drop the content, in which the
content marker is. -/
def emptiedFrame : List (Declaration Unit Unit) :=
  [.attributes "empty" fun _ => AttributeRender.skipContent,
   .plain "label" fun _ => Render.respond (.write "l"),
   .attributes "flag" fun _ => AttributeRender.addFlag "f",
   .plain "lost" fun _ => Render.respond (.write "m")]

/-- Both tags are left, with what the callbacks in the start tag have put out. -/
theorem emptiesElements_of_emptiedFrame :
    ∃ w, Wrapper.compile emptiedFrameSource emptiedFrame = .ok w ∧
      w.preContent.EmptiesElements () w.preContent.entry ∧
      ∃ s, w.render () (Render.respond (.write "n")) (.fresh ()) = .ok ((), s) ∧
        s.response.output = "x<p  title=\"l\"  f></p>y".toUTF8 := by
  have hrun : ((Wrapper.compile emptiedFrameSource emptiedFrame).toOption.any fun w =>
      (w.render () (Render.respond (.write "n")) (.fresh ())).toOption.any fun p =>
        p.2.response.output = "x<p  title=\"l\"  f></p>y".toUTF8) = true := by
    decide +kernel
  obtain ⟨w, hw, hrun⟩ := exists_ok_of_any hrun
  obtain ⟨⟨⟨⟩, s⟩, hrender, hrun⟩ := exists_ok_of_any hrun
  exact ⟨w, hw, ((emptiesElements_of_compile _ _ ()).2 w hw).1, s, hrender, of_decide_eq_true hrun⟩

end HtmlTemplate
