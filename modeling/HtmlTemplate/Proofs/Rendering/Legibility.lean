import HtmlTemplate.Proofs.Rendering.AddedText
import HtmlTemplate.Proofs.Rendering.Traces
import HtmlTemplate.Proofs.Template.Characters

/-!
# Renders add text

A walk writes literal bytes from one offset to another, and takes output back to a size that it
has kept. All of these lie on boundaries: the offsets are those of markers and tags, and a size
that is kept is that of an output which was text. So a render adds text, whatever is dropped on
the way and wherever the part behind a content marker is resumed, if its callbacks, endings and
payloads write strings.

Results:
1. `Transition.legible`, `legible_of_walk`: what is known of the cursor of a walk.
2. `Component.addsText_render`, `Wrapper.addsText_render`, `WrapperRender.addsText_wrap`: what
   the library renders.
3. `Render.Textual.addsText`: whatever is made of the functions for callbacks that write strings.
4. `output_stays_text`: the output is text after a render, and at every moment of it.
-/

namespace HtmlTemplate

open Render

variable {σ δ α β : Type}

/-! ## 1. Walks -/

/-- What is known of the cursor of a walk that has begun with the session `s₀`: it stands on a
boundary, and all that it will go to or take back does as well. -/
structure Cursor.Legible (html : ByteArray) (s₀ : Session (Journaled σ))
    (cur : Cursor (Journaled σ)) (s : Session (Journaled σ)) : Prop where
  added : s₀.AddedText s
  offset : OnBoundary html cur.offset
  jump : ∀ jump, cur.jump = some jump →
    OnBoundary html jump.start ∧ OnBoundary html jump.target.offset
  elements : ∀ e ∈ cur.elements, OnBoundary html e.openStart
  /-- The size at a start tag is that of an output which began with that of `s₀`. -/
  tagMark : ∀ mark, cur.tagMark = some mark →
    s₀.response.size ≤ mark.size ∧ OnBoundary s.response.output mark.size
  stack : cur.stack.Each Render.AddsText

/-- What is known after a step. A walk that ends hands over endings that add text, and a place
to go on at which is on a boundary. -/
def Next.Legible (html : ByteArray) (s₀ : Session (Journaled σ)) :
    Next (Journaled σ) → Session (Journaled σ) → Prop
  | .goto cur, s => cur.Legible html s₀ s
  | .stop outcome _, s => s₀.AddedText s ∧ (∀ ending ∈ outcome.carried, Render.AddsText ending) ∧
      ∀ resume carried, outcome = .swallowed resume carried → OnBoundary html resume.offset

namespace Cursor.Legible

variable {html : ByteArray} {s₀ s s' : Session (Journaled σ)} {cur : Cursor (Journaled σ)}

/-- Text has been added since. -/
theorem trans (h : cur.Legible html s₀ s) (h' : s.AddedText s') : cur.Legible html s₀ s' :=
  { h with
    added := h.added.trans h'
    tagMark := fun mark hmark =>
      ⟨(h.tagMark mark hmark).1, h'.onBoundary_of_before (h.tagMark mark hmark).2⟩ }

theorem next (h : cur.Legible html s₀ s) : cur.next.Legible html s₀ s :=
  { h with }

theorem moveTo (h : cur.Legible html s₀ s) {place : Place} (hp : OnBoundary html place.offset) :
    (cur.moveTo place).Legible html s₀ s :=
  { h with
    offset := hp
    jump := fun _ hj => by cases hj }

theorem enter (h : cur.Legible html s₀ s) {endings : List (Ending (Journaled σ))}
    (hendings : ∀ ending ∈ endings, Render.AddsText ending) :
    (cur.enter endings).Legible html s₀ s :=
  { h with stack := h.stack.setFrame _ hendings }

theorem leave (h : cur.Legible html s₀ s) (depth : Nat) :
    (cur.leave depth).Legible html s₀ s :=
  { h with stack := h.stack.setFrame _ fun _ hending => by cases hending }

theorem pending (h : cur.Legible html s₀ s) : ∀ ending ∈ cur.pending, Render.AddsText ending :=
  h.stack.openEndings _

end Cursor.Legible

namespace Template

variable {t : Template (Journaled σ) δ} {cur cur' : Cursor (Journaled σ)}
  {s₀ s s' : Session (Journaled σ)} {stop : Nat}

theorem legible_advance (ht : t.OnBoundaries) (h : cur.Legible t.html s₀ s)
    (hstop : OnBoundary t.html stop) (hrun : t.advance cur stop s = .ok (cur', s')) :
    cur'.Legible t.html s₀ s' := by
  obtain ⟨hle, -, rfl, rfl⟩ := advance_eq_wrote hrun
  have hadded := h.trans (.of_wrote (h.offset.extract hstop ht.html hle) s)
  exact { hadded with offset := hstop }

/-- The output is marked where it is text. -/
theorem legible_passTags (ht : t.OnBoundaries) (hs₀ : s₀.response.output.IsValidUTF8)
    {es : List Element} (h : cur.Legible t.html s₀ s)
    (hes : ∀ e ∈ es, OnBoundary t.html e.openStart) (hstop : OnBoundary t.html stop)
    (hrun : (do let cur ← t.passTags stop es cur; t.advance cur stop) s = .ok (cur', s')) :
    cur'.Legible t.html s₀ s' := by
  induction es generalizing cur s with
  | nil =>
    have hpassed : Cursor.Legible t.html s₀ { cur with elements := [] } s :=
      { h with elements := hes }
    exact legible_advance ht hpassed hstop hrun
  | cons e rest ih =>
    obtain ⟨he, hrest⟩ := List.forall_mem_cons.mp hes
    unfold passTags at hrun
    split at hrun
    · split at hrun
      · rw [bind_assoc] at hrun
        obtain ⟨cur₁, s₁, hadvance, hrun⟩ := ok_of_bind hrun
        have h₁ := legible_advance ht h he hadvance
        have hmark : OnBoundary s₁.response.output s₁.response.size :=
          .size (h₁.added.isValidUTF8 hs₀)
        have hmarked : Cursor.Legible t.html s₀ { cur₁ with
            tagMark := some { start := e.openStart, size := s₁.response.size } } s₁ := by
          refine { h₁ with tagMark := ?_ }
          rintro mark ⟨⟩
          exact ⟨(h₁.added.onBoundary hs₀).le_size, hmark⟩
        exact ih hmarked hrest hrun
      · exact ih h hrest hrun
    · have hahead : Cursor.Legible t.html s₀ { cur with elements := e :: rest } s :=
        { h with elements := hes }
      exact legible_advance ht hahead hstop hrun

end Template

namespace Component

variable {c : Component (Journaled σ) δ} {data : δ} {cur cur₁ : Cursor (Journaled σ)}
  {s₀ s s₁ s' : Session (Journaled σ)} {next : Next (Journaled σ)}
  {m : Marker (Journaled σ) δ} {e : Element}

theorem legible_settled {html : ByteArray} (h : cur.Legible html s₀ s) :
    (settled cur s).Legible html s₀ s := by
  unfold settled
  split
  · exact ⟨h.added, fun _ hending => (by cases hending), fun _ _ heq => by cases heq⟩
  · exact h

theorem legible_swallowed {html : ByteArray} {resume : Place} (h : cur.Legible html s₀ s)
    (hresume : OnBoundary html resume.offset) : (swallowed cur resume).Legible html s₀ s := by
  refine ⟨h.added, h.pending, ?_⟩
  rintro _ _ ⟨⟩
  exact hresume

section

variable (hc : c.OnBoundaries) (hs₀ : s₀.response.output.IsValidUTF8)
include hc hs₀

theorem Arrives.legible (ha : c.Arrives cur s m cur₁ s₁)
    (h : cur.Legible c.template.html s₀ s) : cur₁.Legible c.template.html s₀ s₁ :=
  Template.legible_passTags hc.toOnBoundaries hs₀ h h.elements (hc.marker _ _ ha.marker_eq)
    ha.run_eq

/-- The walk stands in the start tag of an element, whose callback has added text. -/
theorem CallsInTag.legible {index : Nat} {scope : AttributeScope}
    (hcalls : c.CallsInTag data cur s index e cur₁ scope s') (ht : c.template.AddsText data)
    (h : cur.Legible c.template.html s₀ s) :
    cur₁.Legible c.template.html s₀ s' ∧ e.OnBoundaries c.template.html := by
  obtain ⟨ha, hm, he, hrun⟩ := hcalls
  have h₁ := ha.legible hc hs₀ h
  have hcallback := ht _ _ (.attributes _) ha.marker_eq (by rw [hm]; rfl)
  exact ⟨h₁.trans (hcallback _ _ _ _ (h₁.added.isValidUTF8 hs₀) hrun), hc.element _ _ he⟩

theorem CallsAtStart.legible {closing? : Option Nat} {scope : WrapperScope (Journaled σ)}
    (hcalls : c.CallsAtStart data cur s closing? cur₁ scope s') (ht : c.template.AddsText data)
    (h : cur.Legible c.template.html s₀ s) :
    (cur₁.enter scope.endings).Legible c.template.html s₀ s' ∧
      ∀ ending ∈ scope.endings, Render.AddsText ending := by
  obtain ⟨ha, hm, hframe, hrun⟩ := hcalls
  have h₁ := ha.legible hc hs₀ h
  have hcallback := ht _ _ (.wrapper _) ha.marker_eq (by rw [hm]; rfl)
  obtain ⟨hadded, hendings⟩ :=
    hcallback _ _ _ _ _ (h₁.stack.of_frame hframe) (h₁.added.isValidUTF8 hs₀) hrun
  exact ⟨(h₁.trans hadded).enter hendings, hendings⟩

end

theorem legible_behindTag {html : ByteArray} (h : cur.Legible html s₀ s)
    (he : e.OnBoundaries html) (scope : AttributeScope) :
    (c.behindTag cur e scope).Legible html s₀ s := by
  unfold behindTag planJump
  split
  · split
    · refine { h.next with jump := ?_ }
      rintro jump ⟨⟩
      exact ⟨he.openEnd, he.closeStart⟩
    · exact h.next
  · exact h.next

/-- The size to which the output is cut back is a boundary, and no mark lies behind it. -/
theorem legible_sizeBefore {html : ByteArray} {size : Nat} (h : cur.Legible html s₀ s)
    (hs₀ : s₀.response.output.IsValidUTF8) (hsize : sizeBefore cur e s = .ok (size, s)) :
    s₀.response.size ≤ size ∧ OnBoundary s.response.output size ∧
      ∀ mark, cur.tagMark = some mark → mark.size ≤ size := by
  have hwhole : OnBoundary s.response.output s.response.size := .size (h.added.isValidUTF8 hs₀)
  have hle := (h.added.onBoundary hs₀).le_size
  unfold sizeBefore at hsize
  cases hmark : cur.tagMark with
  | none =>
    rw [hmark] at hsize
    cases hsize
    exact ⟨hle, hwhole, fun _ hnone => by cases hnone⟩
  | some mark =>
    obtain ⟨hfrom, hbefore⟩ := h.tagMark mark hmark
    rw [hmark] at hsize
    by_cases hstart : mark.start = e.openStart
    · simp only [hstart, if_true] at hsize
      cases hsize
      refine ⟨hfrom, hbefore, ?_⟩
      rintro _ ⟨⟩
      exact Nat.le_refl _
    · simp only [hstart, if_false] at hsize
      cases hsize
      refine ⟨hle, hwhole, ?_⟩
      rintro _ ⟨⟩
      exact hbefore.le_size

theorem CutsBack.legible {html : ByteArray} (hcut : CutsBack cur e s s')
    (hs₀ : s₀.response.output.IsValidUTF8) (h : cur.Legible html s₀ s) :
    cur.Legible html s₀ s' := by
  obtain ⟨size, hsize, rfl⟩ := hcut
  obtain ⟨hfrom, hbefore, hmarks⟩ := legible_sizeBefore h hs₀ hsize
  refine { h with
    added := h.added.cut hs₀ hbefore hfrom
    tagMark := fun mark hmark => ?_ }
  obtain ⟨hmarkFrom, hmark'⟩ := h.tagMark mark hmark
  exact ⟨hmarkFrom, hmark'.extract_zero (hmarks mark hmark) hbefore.le_size⟩

/-- A step keeps what is known of the cursor. -/
theorem Transition.legible (htrans : c.Transition data cur s next s') (hc : c.OnBoundaries)
    (ht : c.template.AddsText data) (hs₀ : s₀.response.output.IsValidUTF8)
    (h : cur.Legible c.template.html s₀ s) : next.Legible c.template.html s₀ s' := by
  cases htrans with
  | jump hj =>
    obtain ⟨hstart, htarget⟩ := h.jump _ hj.jump_eq
    exact (Template.legible_advance hc.toOnBoundaries h hstart hj.run_eq).moveTo htarget
  | jumpOut hj =>
    obtain ⟨hstart, htarget⟩ := h.jump _ hj.jump_eq
    exact legible_swallowed
      (Template.legible_advance hc.toOnBoundaries h hstart hj.run_eq) htarget
  | plain ha hm hrun =>
    have h₁ := ha.legible hc hs₀ h
    have hcallback := ht _ _ (.plain _) ha.marker_eq (by rw [hm]; rfl)
    exact legible_settled (h₁.trans (hcallback _ _ _ (h₁.added.isValidUTF8 hs₀) hrun)).next
  | inTag hcalls =>
    obtain ⟨h₁, he⟩ := hcalls.legible hc hs₀ ht h
    exact legible_settled (legible_behindTag h₁ he _)
  | dropElement hcalls _ _ hcut =>
    obtain ⟨h₁, he⟩ := hcalls.legible hc hs₀ ht h
    exact (hcut.legible hs₀ h₁).moveTo he.closeEnd
  | elementOut hcalls _ _ hcut =>
    obtain ⟨h₁, he⟩ := hcalls.legible hc hs₀ ht h
    exact legible_swallowed (hcut.legible hs₀ h₁) he.closeEnd
  | wrapperStart hcalls =>
    exact legible_settled (hcalls.legible hc hs₀ ht h).1.next
  | @dropContent index cur₁ scope s₁ _ n hcalls _ _ hn _ hrun =>
    obtain ⟨h₁, hendings⟩ := hcalls.legible hc hs₀ ht h
    have hran := addsText_runEndings hendings _ _ _ (h₁.added.isValidUTF8 hs₀) hrun
    have hend : Cursor.Legible c.template.html s₀ { cur₁.enter scope.endings with
        marker := index
        offset := n.position } s' := { h₁.trans hran with offset := hc.marker _ _ hn }
    exact legible_settled (hend.leave _)
  | contentOut hcalls _ _ hn =>
    exact legible_swallowed (hcalls.legible hc hs₀ ht h).1 (hc.marker _ _ hn)
  | wrapperEnd ha _ _ _ hframe hrun =>
    have h₁ := ha.legible hc hs₀ h
    have hran := addsText_runEndings (h₁.stack.of_frame hframe) _ _ _
      (h₁.added.isValidUTF8 hs₀) hrun
    exact legible_settled ((h₁.trans hran).leave _)
  | endBefore ha => exact (ha.legible hc hs₀ h).next
  | finish he =>
    have h₁ := Template.legible_advance hc.toOnBoundaries h hc.exit he.run_eq
    exact ⟨h₁.added, h₁.pending, fun _ _ heq => by cases heq⟩

/-- A walk from a place on a boundary. -/
theorem legible_of_walk {place : Place} {stack stack' : EndingStack (Ending (Journaled σ))}
    {outcome : Outcome (Journaled σ)} (hc : c.OnBoundaries) (ht : c.template.AddsText data)
    (hs : s.response.output.IsValidUTF8) (hrunning : s.response.halted = false)
    (hplace : OnBoundary c.template.html place.offset) (hstack : stack.Each Render.AddsText)
    (h : c.walk data place stack s = .ok ((outcome, stack'), s')) :
    (Next.stop outcome stack').Legible c.template.html s s' := by
  have hcursor : (c.cursorAt place stack).Legible c.template.html s s := by
    refine ⟨.refl s, hplace, fun _ hj => (by cases hj), fun e he => ?_, fun _ hm => (by cases hm),
      hstack⟩
    have hmem : e ∈ c.template.elements.toList := (List.dropWhile_sublist _).subset he
    obtain ⟨i, hi⟩ := List.getElem?_of_mem hmem
    exact (hc.element i e (Array.getElem?_toList.symm.trans hi)).openStart
  exact loop_induction (fun cur s' => cur.Legible c.template.html s s')
    (fun outcome stack s' => (Next.stop outcome stack).Legible c.template.html s s') h hrunning
    hcursor (fun _ _ _ _ _ hinv htrans => htrans.legible hc ht hs hinv)
    fun _ _ _ hinv htrans => htrans.legible hc ht hs hinv

/-- A run adds text, and so do the endings that it hands over. -/
theorem legible_of_run {place : Place} {outcome : Outcome (Journaled σ)} (hc : c.OnBoundaries)
    (ht : c.template.AddsText data) (hs : s.response.output.IsValidUTF8)
    (hplace : OnBoundary c.template.html place.offset)
    (h : c.run data place s = .ok (outcome, s')) :
    s.AddedText s' ∧ (∀ ending ∈ outcome.carried, Render.AddsText ending) ∧
      ∀ resume carried, outcome = .swallowed resume carried →
        OnBoundary c.template.html resume.offset := by
  rcases run_eq_ok h with ⟨-, rfl, rfl⟩ | ⟨hrunning, stack, hwalk⟩
  · exact ⟨.refl _, fun _ hending => (by cases hending), fun _ _ heq => by cases heq⟩
  · exact legible_of_walk hc ht hs hrunning hplace (.ofDepth _) hwalk

theorem addsText_render (hc : c.OnBoundaries) (ht : c.template.AddsText data) :
    Render.AddsText (c.render data) := by
  intro s u s' hs h
  obtain ⟨outcome, s₁, hrun, hrest⟩ := ok_of_bind h
  obtain ⟨hadded, hcarried, -⟩ := legible_of_run hc ht hs hc.entry hrun
  cases outcome with
  | halted =>
    cases hrest
    exact hadded
  | finished carried | swallowed resume carried =>
    exact hadded.trans (addsText_runEndings hcarried _ _ _ (hadded.isValidUTF8 hs) hrest)

end Component

/-! ## 2. Wrappers -/

section Wrapper

variable {w : Wrapper (Journaled σ) δ} {data : δ}

theorem Wrapper.addsText_renderPost (hw : w.OnBoundaries) (ht : w.template.AddsText data)
    {place : Place} (hplace : OnBoundary w.template.html place.offset) :
    Render.AddsText (w.renderPost data place) := by
  intro s u s' hs h
  obtain ⟨outcome, s₁, hrun, hpure⟩ := ok_of_bind h
  cases hpure
  exact (Component.legible_of_run (c := w.postContent) hw.postContent ht hs hplace hrun).1

theorem Wrapper.addsText_render (hw : w.OnBoundaries) (ht : w.template.AddsText data)
    {payload : Render (Journaled σ) Unit} (hpayload : Render.AddsText payload) :
    Render.AddsText (w.render data payload) := by
  intro s u s' hs h
  obtain ⟨outcome, s₁, hrun, hrest⟩ := ok_of_bind h
  obtain ⟨hadded, hcarried, hresume⟩ :=
    Component.legible_of_run (c := w.preContent) hw.preContent ht hs hw.preContent.entry hrun
  have hs₁ := hadded.isValidUTF8 hs
  cases outcome with
  | halted =>
    cases hrest
    exact hadded
  | finished carried =>
    have hafter : Render.AddsText (do payload; runEndings carried; w.renderPost data w.content) :=
      addsText_bind hpayload fun _ => addsText_bind (addsText_runEndings hcarried) fun _ =>
        addsText_renderPost hw ht hw.content
    exact hadded.trans (hafter _ _ _ hs₁ hrest)
  | swallowed resume carried =>
    have hafter : Render.AddsText (do runEndings carried; w.renderPost data resume) :=
      addsText_bind (addsText_runEndings hcarried) fun _ =>
        addsText_renderPost hw ht (hresume resume carried rfl)
    exact hadded.trans (hafter _ _ _ hs₁ hrest)

/-- What is registered for the wrapper end is resumed on a boundary. -/
theorem WrapperRender.addsText_wrap (hw : w.OnBoundaries) (ht : w.template.AddsText data) :
    WrapperRender.AddsText (WrapperRender.wrap w data) := by
  intro scope s u scope' s' hscope hs h
  obtain ⟨outcome, hrun, hregistered⟩ := wrap_eq_ok h
  obtain ⟨hadded, hcarried, hresume⟩ :=
    Component.legible_of_run (c := w.preContent) hw.preContent ht hs hw.preContent.entry hrun
  refine ⟨hadded, ?_⟩
  obtain ⟨-, rfl⟩ | ⟨place, hplace, hendings⟩ := hregistered
  · exact hscope
  · have hboundary : OnBoundary w.template.html place.offset := by
      obtain rfl | hswallowed := hplace
      · exact hw.content
      · exact hresume place _ hswallowed
    rw [hendings]
    exact List.forall_mem_append.mpr ⟨hcarried, List.forall_mem_cons.mpr
      ⟨Wrapper.addsText_renderPost hw ht hboundary, hscope⟩⟩

end Wrapper

/-! ## 3. Callbacks that write strings -/

mutual

/-- A computation made of the functions for callbacks that writes strings only. It may make a
note at any moment. -/
inductive Render.Textual : {α : Type} → Render (Journaled σ) α → Prop
  /-- The response and the world are read, the world is changed, and something is returned. -/
  | consult {α : Type} (f : Response → σ → α × σ) : Render.Textual (Render.consult f)
  | respond {call : Response.Call} : call.Textual → Render.Textual (Render.respond call)
  | note (event : Event) : Render.Textual (Render.note event)
  /-- A callback gives up by itself. -/
  | overflow {α : Type} : Render.Textual (throw .overflow : Render (Journaled σ) α)
  | bind {α β : Type} {x : Render (Journaled σ) α} {f : α → Render (Journaled σ) β} :
      Render.Textual x → (∀ a, Render.Textual (f a)) → Render.Textual (x >>= f)
  /-- A component is inserted. -/
  | insert {δ : Type} {source : String} {declarations : List (Declaration (Journaled σ) δ)}
      {c : Component (Journaled σ) δ} (data : δ) :
      Component.compile source declarations = .ok c →
      (∀ d ∈ declarations, Declaration.Textual d) → Render.Textual (c.render data)
  /-- The part of a wrapper before its content marker is inserted. -/
  | insertBefore {δ : Type} {source : String} {declarations : List (Declaration (Journaled σ) δ)}
      {w : Wrapper (Journaled σ) δ} (data : δ) : Wrapper.compile source declarations = .ok w →
      (∀ d ∈ declarations, Declaration.Textual d) → Render.Textual (w.preContent.render data)
  /-- The part of a wrapper behind its content marker is inserted. -/
  | insertBehind {δ : Type} {source : String} {declarations : List (Declaration (Journaled σ) δ)}
      {w : Wrapper (Journaled σ) δ} (data : δ) : Wrapper.compile source declarations = .ok w →
      (∀ d ∈ declarations, Declaration.Textual d) → Render.Textual (w.postContent.render data)
  /-- A wrapper is inserted around a payload. -/
  | insertWrapped {δ : Type} {source : String} {declarations : List (Declaration (Journaled σ) δ)}
      {w : Wrapper (Journaled σ) δ} (data : δ) {payload : Render (Journaled σ) Unit} :
      Wrapper.compile source declarations = .ok w → (∀ d ∈ declarations, Declaration.Textual d) →
      Render.Textual payload → Render.Textual (w.render data payload)

/-- A computation at a wrapper start made of the functions for callbacks, which writes strings
only, and so do the endings that it registers. -/
inductive WrapperRender.Textual : {α : Type} → WrapperRender (Journaled σ) α → Prop
  | lift {α : Type} {x : Render (Journaled σ) α} :
      Render.Textual x → WrapperRender.Textual (StateT.lift x)
  | bind {α β : Type} {x : WrapperRender (Journaled σ) α}
      {f : α → WrapperRender (Journaled σ) β} : WrapperRender.Textual x →
      (∀ a, WrapperRender.Textual (f a)) → WrapperRender.Textual (x >>= f)
  | addEnding {ending : Ending (Journaled σ)} : Render.Textual ending →
      WrapperRender.Textual (WrapperRender.addEnding ending)
  | skipContent : WrapperRender.Textual WrapperRender.skipContent
  | wrap {δ : Type} {source : String} {declarations : List (Declaration (Journaled σ) δ)}
      {w : Wrapper (Journaled σ) δ} (data : δ) : Wrapper.compile source declarations = .ok w →
      (∀ d ∈ declarations, Declaration.Textual d) →
      WrapperRender.Textual (WrapperRender.wrap w data)

/-- A computation in a start tag made of the functions for callbacks that writes strings only. -/
inductive AttributeRender.Textual : {α : Type} → AttributeRender (Journaled σ) α → Prop
  | lift {α : Type} {x : Render (Journaled σ) α} :
      Render.Textual x → AttributeRender.Textual (StateT.lift x)
  | bind {α β : Type} {x : AttributeRender (Journaled σ) α}
      {f : α → AttributeRender (Journaled σ) β} : AttributeRender.Textual x →
      (∀ a, AttributeRender.Textual (f a)) → AttributeRender.Textual (x >>= f)
  | skipContent : AttributeRender.Textual AttributeRender.skipContent
  | skipElement : AttributeRender.Textual AttributeRender.skipElement

/-- A declaration whose callback, if there is one, writes strings only. -/
inductive Declaration.Textual : {δ : Type} → Declaration (Journaled σ) δ → Prop
  | fixed {δ : Type} {d : Declaration (Journaled σ) δ} :
      d.callback = none → Declaration.Textual d
  | plain {δ : Type} {d : Declaration (Journaled σ) δ} {run : δ → Render (Journaled σ) Unit} :
      d.callback = some (.plain run) → (∀ data, Render.Textual (run data)) →
      Declaration.Textual d
  | wrapper {δ : Type} {d : Declaration (Journaled σ) δ}
      {run : δ → WrapperRender (Journaled σ) Unit} :
      d.callback = some (.wrapper run) → (∀ data, WrapperRender.Textual (run data)) →
      Declaration.Textual d
  | attributes {δ : Type} {d : Declaration (Journaled σ) δ}
      {run : δ → AttributeRender (Journaled σ) Unit} :
      d.callback = some (.attributes run) → (∀ data, AttributeRender.Textual (run data)) →
      Declaration.Textual d

end

mutual

theorem Render.Textual.addsText {α : Type} {x : Render (Journaled σ) α} :
    Render.Textual x → Render.AddsText x
  | .consult f => addsText_consult f
  | .respond hc => addsText_respond hc
  | .note event => addsText_note event
  | .overflow => addsText_throw _
  | .bind hx hf => addsText_bind hx.addsText fun a => (hf a).addsText
  | .insert data h hd =>
    Component.addsText_render (Component.onBoundaries_of_compile h)
      (Component.eachCallback_of_compile h fun d hmem callback hc =>
        (hd d hmem).addsText callback hc data)
  | .insertBefore data h hd =>
    Component.addsText_render (Wrapper.onBoundaries_of_compile h).preContent
      (Wrapper.eachCallback_of_compile h fun d hmem callback hc =>
        (hd d hmem).addsText callback hc data)
  | .insertBehind data h hd =>
    Component.addsText_render (Wrapper.onBoundaries_of_compile h).postContent
      (Wrapper.eachCallback_of_compile h fun d hmem callback hc =>
        (hd d hmem).addsText callback hc data)
  | .insertWrapped data h hd hpayload =>
    Wrapper.addsText_render (Wrapper.onBoundaries_of_compile h)
      (Wrapper.eachCallback_of_compile h fun d hmem callback hc =>
        (hd d hmem).addsText callback hc data) hpayload.addsText

theorem WrapperRender.Textual.addsText {α : Type} {x : WrapperRender (Journaled σ) α} :
    WrapperRender.Textual x → WrapperRender.AddsText x
  | .lift hx => WrapperRender.addsText_lift hx.addsText
  | .bind hx hf => WrapperRender.addsText_bind hx.addsText fun a => (hf a).addsText
  | .addEnding h => WrapperRender.addsText_addEnding h.addsText
  | .skipContent => WrapperRender.addsText_skipContent
  | .wrap data h hd =>
    WrapperRender.addsText_wrap (Wrapper.onBoundaries_of_compile h)
      (Wrapper.eachCallback_of_compile h fun d hmem callback hc =>
        (hd d hmem).addsText callback hc data)

theorem AttributeRender.Textual.addsText {α : Type} {x : AttributeRender (Journaled σ) α} :
    AttributeRender.Textual x → AttributeRender.AddsText x
  | .lift hx => AttributeRender.addsText_lift hx.addsText
  | .bind hx hf => AttributeRender.addsText_bind hx.addsText fun a => (hf a).addsText
  | .skipContent => AttributeRender.addsText_skipContent
  | .skipElement => AttributeRender.addsText_skipElement

theorem Declaration.Textual.addsText {δ : Type} {d : Declaration (Journaled σ) δ} :
    Declaration.Textual d →
      ∀ callback, d.callback = some callback → ∀ data, callback.AddsText data
  | .fixed hc => fun callback h => by
    cases hc.symm.trans h
  | .plain hc hrun => fun callback h data => by
    cases hc.symm.trans h
    exact (hrun data).addsText
  | .wrapper hc hrun => fun callback h data => by
    cases hc.symm.trans h
    exact (hrun data).addsText
  | .attributes hc hrun => fun callback h data => by
    cases hc.symm.trans h
    exact (hrun data).addsText

end

/-! ## 4. Renders of compiled templates -/

/-- If the output is text before, it is text afterwards, and at every moment of which a note is
made in between. -/
def Render.StaysText (x : Render (Journaled σ) α) : Prop :=
  ∀ s a s', s.response.output.IsValidUTF8 → x s = .ok (a, s') →
    s'.response.output.IsValidUTF8 ∧
      ∃ new, s'.entries = s.entries ++ new ∧ ∀ n ∈ new, n.response.output.IsValidUTF8

theorem Render.AddsText.staysText {x : Render (Journaled σ) α} (hx : AddsText x) : StaysText x :=
  fun s a s' hs h =>
    have hadded := hx s a s' hs h
    ⟨hadded.isValidUTF8 hs, hadded.entries⟩

/-- Whatever is rendered of a compiled template, the output stays text, if the callbacks, the
endings and the payload write strings only: for a component, for either part of a wrapper and
for a wrapper around a payload. Elements and contents may be dropped, with the content marker
or without it, and callbacks may render other templates and wrap their content in wrappers. -/
theorem output_stays_text {declarations : List (Declaration (Journaled σ) δ)}
    (hd : ∀ d ∈ declarations, d.Textual) (source : String) (data : δ) :
    (∀ c, Component.compile source declarations = .ok c → (c.render data).StaysText) ∧
      ∀ w, Wrapper.compile source declarations = .ok w →
        (w.preContent.render data).StaysText ∧ (w.postContent.render data).StaysText ∧
        ∀ payload, Render.Textual payload → (w.render data payload).StaysText := by
  refine ⟨fun c h => ?_, fun w h => ⟨?_, ?_, fun payload hpayload => ?_⟩⟩
  · exact (Render.Textual.insert data h hd).addsText.staysText
  · exact (Render.Textual.insertBefore data h hd).addsText.staysText
  · exact (Render.Textual.insertBehind data h hd).addsText.staysText
  · exact (Render.Textual.insertWrapped data h hd hpayload).addsText.staysText

/-- An ending, which makes a note and writes. -/
def notedEnding : Render (Journaled Unit) Unit := do
  Render.note .called
  Render.respond (.write "<É>")

/-- The source `é${{deco}ü<b ${drop}>ä${}</b>ö}}ß`. -/
def umlautsSource : String :=
  "é$\x7b\x7bdeco\x7dü<b $\x7bdrop\x7d>ä$\x7b\x7d</b>ö\x7d\x7dß"

/-- Its declarations: a wrapper with an ending, and in it an element that is dropped with the
content marker. -/
def umlauts : List (Declaration (Journaled Unit) Unit) :=
  [.wrapper "deco" fun _ => WrapperRender.addEnding notedEnding,
    .attributes "drop" fun _ => do
      StateT.lift (Render.respond (.addAttribute "ключ" "\"знач\""))
      StateT.lift (Render.note .called)
      AttributeRender.skipElement]

/-- The source `→${{main}x}}←`. -/
def arrowsSource : String := "→$\x7b\x7bmain\x7dx\x7d\x7d←"

/-- Its declarations: the content is wrapped. -/
def arrows (w : Wrapper (Journaled Unit) Unit) : List (Declaration (Journaled Unit) Unit) :=
  [.wrapper "main" fun _ => WrapperRender.wrap w ()]

/-- Two notes are made: in the start tag, before it is taken back, and in the ending, in whose
output it is no more. -/
theorem output_stays_text_of_arrows :
    ∃ w, Wrapper.compile umlautsSource umlauts = .ok w ∧
      ∃ c, Component.compile arrowsSource (arrows w) = .ok c ∧ (c.render ()).StaysText ∧
        ∃ s', c.render () (Session.fresh { world := () }) = .ok ((), s') ∧
          s'.response.output = "→éü&lt;É&gt;öß←".toUTF8 ∧
          s'.entries.map (fun n => n.response.output) =
            ["→éü<b  ключ=\"&#34;знач&#34;\"".toUTF8, "→éü".toUTF8] := by
  have hrun : ((Wrapper.compile umlautsSource umlauts).toOption.any fun w =>
      (Component.compile arrowsSource (arrows w)).toOption.any fun c =>
        (c.render () (Session.fresh { world := () })).toOption.any fun p =>
          p.2.response.output = "→éü&lt;É&gt;öß←".toUTF8 &&
          p.2.entries.map (fun n => n.response.output) =
            ["→éü<b  ключ=\"&#34;знач&#34;\"".toUTF8, "→éü".toUTF8]) = true := by
    decide +kernel
  obtain ⟨w, hw, hrun⟩ := exists_ok_of_any hrun
  obtain ⟨c, hc, hrun⟩ := exists_ok_of_any hrun
  obtain ⟨⟨⟨⟩, s'⟩, hrender, hrun⟩ := exists_ok_of_any hrun
  simp only [Bool.and_eq_true, decide_eq_true_eq] at hrun
  have humlauts : ∀ d ∈ umlauts, d.Textual := by
    simp only [umlauts, List.forall_mem_cons]
    exact ⟨.wrapper rfl fun _ => .addEnding (.bind (.note _) fun _ => .respond trivial),
      .attributes rfl fun _ => .bind (.lift (.respond trivial)) fun _ =>
        .bind (.lift (.note _)) fun _ => .skipElement, nofun⟩
  have harrows : ∀ d ∈ arrows w, d.Textual := by
    intro d hmem
    cases List.mem_singleton.mp hmem
    exact .wrapper rfl fun _ => .wrap () hw humlauts
  exact ⟨w, hw, c, hc, (output_stays_text harrows arrowsSource ()).1 c hc, s', hrender, hrun⟩

end HtmlTemplate
