import HtmlTemplate.Proofs.Rendering.Blindness
import HtmlTemplate.Proofs.Rendering.Traces

/-!
# Computations that only add to the output

Callbacks cannot take output back, and the library takes back only what a walk has written by
itself since it began: the size at a start tag is kept in the cursor of the walk. So whatever is
rendered, the output begins with what it was before.

Results:
1. `Session.Extends`: the output begins with that of an earlier session.
2. `Render.Extends`, `Callback.Extends`: computations of which that is true.
3. `Component.extends_render`, `Wrapper.extends_render`, `WrapperRender.extends_wrap`: what the
   library renders, if its callbacks only add to the output.
-/

namespace HtmlTemplate

open Render

variable {ω δ α β : Type}

/-! ## 1. Sessions -/

/-- The output begins with what had been written before. -/
def Session.Extends (s s' : Session ω) : Prop :=
  ∃ more, s'.response.output = s.response.output ++ more

namespace Session.Extends

variable {s s₀ s₁ s' : Session ω}

theorem of_eq (h : s'.response.output = s.response.output) : s.Extends s' :=
  ⟨.empty, by rw [h, ByteArray.append_empty]⟩

theorem refl (s : Session ω) : s.Extends s := of_eq rfl

theorem trans (h : s.Extends s₁) (h' : s₁.Extends s') : s.Extends s' := by
  obtain ⟨more, hmore⟩ := h
  obtain ⟨more', hmore'⟩ := h'
  exact ⟨more ++ more', by rw [hmore', hmore, ByteArray.append_assoc]⟩

theorem size_le (h : s.Extends s') : s.response.size ≤ s'.response.size := by
  obtain ⟨more, hmore⟩ := h
  rw [Response.size, Response.size, hmore, ByteArray.size_append]
  exact Nat.le_add_right _ _

/-- The output is cut back to what it was before. -/
theorem extract_eq (h : s.Extends s') :
    s'.response.output.extract 0 s.response.size = s.response.output := by
  obtain ⟨more, hmore⟩ := h
  rw [hmore]
  exact ByteArray.extract_append_eq_left rfl

/-- No call takes output back. -/
theorem of_apply (call : Response.Call) (s : Session ω) :
    s.Extends { s with response := s.response.apply call } := by
  have h := Response.behind_apply s.emptied.response s.response.output call
  rw [show s.emptied.response.behind s.response.output = s.response from
    congrArg Session.response s.emptied_behind] at h
  exact ⟨_, congrArg Response.output h⟩

theorem of_wrote (t : Template ω δ) (start stop : Nat) (s : Session ω) :
    s.Extends (t.wrote start stop s) :=
  of_apply (.writeRawBytes _) s

/-- Output is taken back, but not what had been written before. -/
theorem truncate {size : Nat} (h : s.Extends s') (hle : s.response.size ≤ size) :
    s.Extends { s' with response := s'.response.truncate size } := by
  refine ⟨s'.response.output.extract s.response.size size, ?_⟩
  show s'.response.output.extract 0 size = _
  rw [ByteArray.extract_eq_extract_append_extract s.response.size (Nat.zero_le _) hle,
    h.extract_eq]

end Session.Extends

/-! ## 2. Computations -/

/-- The computation only adds to the output. -/
def Render.Extends (x : Render ω α) : Prop :=
  ∀ s a s', x s = .ok (a, s') → s.Extends s'

/-- The callback only adds to the output, and so do the endings that it registers. -/
def WrapperRender.Extends (x : WrapperRender ω α) : Prop :=
  ∀ scope s a scope' s', (∀ ending ∈ scope.endings, Render.Extends ending) →
    x.run scope s = .ok ((a, scope'), s') →
    s.Extends s' ∧ ∀ ending ∈ scope'.endings, Render.Extends ending

def AttributeRender.Extends (x : AttributeRender ω α) : Prop :=
  ∀ scope, Render.Extends (x.run scope)

namespace Render

theorem extends_pure (a : α) : Extends (pure a : Render ω α) := by
  intro s b s' h
  cases h
  exact .refl s

theorem extends_bind {x : Render ω α} {f : α → Render ω β} (hx : Extends x)
    (hf : ∀ a, Extends (f a)) : Extends (x >>= f) := by
  intro s b s' h
  obtain ⟨a, s₁, hrun, hrest⟩ := ok_of_bind h
  exact (hx s a s₁ hrun).trans (hf a s₁ b s' hrest)

theorem extends_respond (call : Response.Call) : Extends (respond call : Render ω Unit) := by
  intro s a s' h
  cases h
  exact .of_apply call s

theorem extends_runEndings {endings : List (Ending ω)}
    (h : ∀ ending ∈ endings, Extends ending) : Extends (runEndings endings) := by
  induction endings with
  | nil => exact extends_pure ()
  | cons ending rest ih =>
    obtain ⟨hending, hrest⟩ := List.forall_mem_cons.mp h
    intro s a s' hrun
    rw [runEndings_cons] at hrun
    cases hs : s.response.halted with
    | true =>
      rw [unlessHalted_of_halted _ hs] at hrun
      cases hrun
      exact .refl s
    | false =>
      rw [unlessHalted_of_running _ hs] at hrun
      exact extends_bind hending (fun _ => ih hrest) s a s' hrun

end Render

namespace WrapperRender

theorem extends_bind {x : WrapperRender ω α} {f : α → WrapperRender ω β} (hx : Extends x)
    (hf : ∀ a, Extends (f a)) : Extends (x >>= f) := by
  intro scope s b scope' s' hscope h
  obtain ⟨a, scope₁, s₁, hrun, hrest⟩ := ok_of_bind h
  obtain ⟨hadded, hscope₁⟩ := hx scope s a scope₁ s₁ hscope hrun
  obtain ⟨hadded', hscope'⟩ := hf a scope₁ s₁ b scope' s' hscope₁ hrest
  exact ⟨hadded.trans hadded', hscope'⟩

theorem extends_lift {x : Render ω α} (hx : Render.Extends x) : Extends (StateT.lift x) := by
  intro scope s a scope' s' hscope h
  obtain ⟨rfl, hrun⟩ := ok_of_lift h
  exact ⟨hx s a s' hrun, hscope⟩

theorem extends_addEnding {ending : Ending ω} (h : Render.Extends ending) :
    Extends (addEnding ending) := by
  intro scope s a scope' s' hscope hrun
  cases hrun
  exact ⟨.refl s, List.forall_mem_cons.mpr ⟨h, hscope⟩⟩

theorem extends_skipContent : Extends (skipContent : WrapperRender ω Unit) := by
  intro scope s a scope' s' hscope hrun
  cases hrun
  exact ⟨.refl s, hscope⟩

end WrapperRender

namespace AttributeRender

theorem extends_bind {x : AttributeRender ω α} {f : α → AttributeRender ω β} (hx : Extends x)
    (hf : ∀ a, Extends (f a)) : Extends (x >>= f) := by
  intro scope
  rw [StateT.run_bind]
  exact Render.extends_bind (hx scope) fun p => hf p.1 p.2

theorem extends_lift {x : Render ω α} (hx : Render.Extends x) : Extends (StateT.lift x) := by
  intro scope
  rw [StateT.run_lift]
  exact Render.extends_bind hx fun _ => Render.extends_pure _

theorem extends_skipContent : Extends (skipContent : AttributeRender ω Unit) :=
  fun _ => Render.extends_pure _

theorem extends_skipElement : Extends (skipElement : AttributeRender ω Unit) :=
  fun _ => Render.extends_pure _

end AttributeRender

/-- The callback only adds to the output, and registers only endings that do. -/
def Callback.Extends (data : δ) : Callback ω δ → Prop
  | .plain run => Render.Extends (run data)
  | .wrapper run => WrapperRender.Extends (run data)
  | .attributes run => AttributeRender.Extends (run data)

/-- The callback of the declaration, if there is one, only adds to the output. -/
def Declaration.Extends (d : Declaration ω δ) : Prop :=
  ∀ callback, d.callback = some callback → ∀ data, callback.Extends data

/-- The callbacks of the template only add to the output. -/
abbrev Template.Extends (t : Template ω δ) (data : δ) : Prop :=
  t.EachCallback fun callback => callback.Extends data

/-! ## 3. Walks -/

/-- What is known of the cursor of a walk that has begun with the session `s₀`: nothing that had
been written before will be taken back. -/
structure Cursor.Extends (s₀ : Session ω) (cur : Cursor ω) (s : Session ω) : Prop where
  session : s₀.Extends s
  tagMark : ∀ mark, cur.tagMark = some mark → s₀.response.size ≤ mark.size
  stack : cur.stack.Each Render.Extends

/-- What is known after a step. -/
def Next.Extends (s₀ : Session ω) : Next ω → Session ω → Prop
  | .goto cur, s => cur.Extends s₀ s
  | .stop outcome _, s => s₀.Extends s ∧ ∀ ending ∈ outcome.carried, Render.Extends ending

namespace Cursor.Extends

variable {s₀ s s' : Session ω} {cur : Cursor ω}

theorem trans (h : cur.Extends s₀ s) (h' : s.Extends s') : cur.Extends s₀ s' :=
  { h with session := h.session.trans h' }

theorem next (h : cur.Extends s₀ s) : cur.next.Extends s₀ s := { h with }

theorem moveTo (h : cur.Extends s₀ s) (place : Place) : (cur.moveTo place).Extends s₀ s :=
  { h with }

theorem enter (h : cur.Extends s₀ s) {endings : List (Ending ω)}
    (hendings : ∀ ending ∈ endings, Render.Extends ending) : (cur.enter endings).Extends s₀ s :=
  { h with stack := h.stack.setFrame _ hendings }

theorem leave (h : cur.Extends s₀ s) (depth : Nat) : (cur.leave depth).Extends s₀ s :=
  { h with stack := h.stack.setFrame _ fun _ hending => by cases hending }

end Cursor.Extends

namespace Template

variable {t : Template ω δ} {cur cur' : Cursor ω} {s₀ s s' : Session ω} {stop : Nat}

theorem extends_advance (h : cur.Extends s₀ s) (hrun : t.advance cur stop s = .ok (cur', s')) :
    cur'.Extends s₀ s' := by
  obtain ⟨-, -, rfl, rfl⟩ := advance_eq_wrote hrun
  exact { h with session := h.session.trans (.of_wrote t _ _ s) }

/-- The size that is kept at a start tag is not below that at the beginning. -/
theorem extends_passTags {es : List Element} (h : cur.Extends s₀ s)
    (hrun : (do let cur ← t.passTags stop es cur; t.advance cur stop) s = .ok (cur', s')) :
    cur'.Extends s₀ s' := by
  induction es generalizing cur s with
  | nil =>
    have hpassed : Cursor.Extends s₀ { cur with elements := [] } s := { h with }
    exact extends_advance hpassed hrun
  | cons e rest ih =>
    unfold passTags at hrun
    split at hrun
    · split at hrun
      · rw [bind_assoc] at hrun
        obtain ⟨cur₁, s₁, hadvance, hrun⟩ := ok_of_bind hrun
        have h₁ := extends_advance h hadvance
        have hmarked : Cursor.Extends s₀ { cur₁ with
            tagMark := some { start := e.openStart, size := s₁.response.size } } s₁ := by
          refine { h₁ with tagMark := ?_ }
          rintro mark ⟨⟩
          exact h₁.session.size_le
        exact ih hmarked hrun
      · exact ih h hrun
    · have hahead : Cursor.Extends s₀ { cur with elements := e :: rest } s := { h with }
      exact extends_advance hahead hrun

end Template

namespace Component

variable {c : Component ω δ} {data : δ} {cur cur₀ cur₁ : Cursor ω} {s₀ s s₁ s' : Session ω}
  {next : Next ω} {m : Marker ω δ} {e : Element} {place : Place} {outcome : Outcome ω}

theorem extends_settled (h : cur.Extends s₀ s) : (settled cur s).Extends s₀ s := by
  unfold settled
  split
  · exact ⟨h.session, fun _ hending => by cases hending⟩
  · exact h

theorem extends_swallowed {resume : Place} (h : cur.Extends s₀ s) :
    (swallowed cur resume).Extends s₀ s :=
  ⟨h.session, h.stack.openEndings _⟩

theorem Arrives.extends (ha : c.Arrives cur s m cur₁ s₁) (h : cur.Extends s₀ s) :
    cur₁.Extends s₀ s₁ :=
  Template.extends_passTags h ha.run_eq

theorem CallsInTag.extends_of_callback {index : Nat} {scope : AttributeScope}
    (hcalls : c.CallsInTag data cur s index e cur₁ scope s') (ht : c.template.Extends data) :
    ∃ m s₁, c.Arrives cur s m cur₁ s₁ ∧ s₁.Extends s' := by
  obtain ⟨ha, hm, he, hrun⟩ := hcalls
  have hcallback := ht _ _ (.attributes _) ha.marker_eq (by rw [hm]; rfl)
  exact ⟨_, _, ha, hcallback _ _ _ _ hrun⟩

theorem CallsInTag.extends {index : Nat} {scope : AttributeScope}
    (hcalls : c.CallsInTag data cur s index e cur₁ scope s') (ht : c.template.Extends data)
    (h : cur.Extends s₀ s) : cur₁.Extends s₀ s' := by
  obtain ⟨m, s₁, ha, hadded⟩ := hcalls.extends_of_callback ht
  exact (ha.extends h).trans hadded

theorem CallsAtStart.extends {closing? : Option Nat} {scope : WrapperScope ω}
    (hcalls : c.CallsAtStart data cur s closing? cur₁ scope s') (ht : c.template.Extends data)
    (h : cur.Extends s₀ s) :
    (cur₁.enter scope.endings).Extends s₀ s' ∧
      ∀ ending ∈ scope.endings, Render.Extends ending := by
  obtain ⟨ha, hm, hframe, hrun⟩ := hcalls
  have h₁ := ha.extends h
  have hcallback := ht _ _ (.wrapper _) ha.marker_eq (by rw [hm]; rfl)
  obtain ⟨hadded, hendings⟩ := hcallback _ _ _ _ _ (h₁.stack.of_frame hframe) hrun
  exact ⟨(h₁.trans hadded).enter hendings, hendings⟩

theorem extends_behindTag (h : cur.Extends s₀ s) (scope : AttributeScope) :
    (c.behindTag cur e scope).Extends s₀ s := by
  unfold behindTag planJump
  split
  · split
    · exact { h with }
    · exact h.next
  · exact h.next

/-- The output is cut back to a size that is not below that at the beginning. -/
theorem CutsBack.extends (hcut : CutsBack cur e s s') (h : cur.Extends s₀ s) :
    cur.Extends s₀ s' := by
  obtain ⟨size, hsize, rfl⟩ := hcut
  suffices hle : s₀.response.size ≤ size from { h with session := h.session.truncate hle }
  unfold sizeBefore at hsize
  cases hmark : cur.tagMark with
  | none =>
    rw [hmark] at hsize
    cases hsize
    exact h.session.size_le
  | some mark =>
    rw [hmark] at hsize
    by_cases hstart : mark.start = e.openStart
    · simp only [hstart, if_true] at hsize
      cases hsize
      exact h.tagMark mark hmark
    · simp only [hstart, if_false] at hsize
      cases hsize
      exact h.session.size_le

/-- A step keeps what is known of the cursor. -/
theorem Transition.extends (htrans : c.Transition data cur s next s')
    (ht : c.template.Extends data) (h : cur.Extends s₀ s) : next.Extends s₀ s' := by
  cases htrans with
  | jump hj => exact (Template.extends_advance h hj.run_eq).moveTo _
  | jumpOut hj => exact extends_swallowed (Template.extends_advance h hj.run_eq)
  | plain ha hm hrun =>
    have hcallback := ht _ _ (.plain _) ha.marker_eq (by rw [hm]; rfl)
    exact extends_settled ((ha.extends h).trans (hcallback _ _ _ hrun)).next
  | inTag hcalls => exact extends_settled (extends_behindTag (hcalls.extends ht h) _)
  | dropElement hcalls _ _ hcut => exact (hcut.extends (hcalls.extends ht h)).moveTo _
  | elementOut hcalls _ _ hcut => exact extends_swallowed (hcut.extends (hcalls.extends ht h))
  | wrapperStart hcalls => exact extends_settled (hcalls.extends ht h).1.next
  | @dropContent index cur₁ scope s₁ _ n hcalls _ _ _ _ hrun =>
    obtain ⟨h₁, hendings⟩ := hcalls.extends ht h
    have hran := extends_runEndings hendings _ _ _ hrun
    have hend : Cursor.Extends s₀ { cur₁.enter scope.endings with
        marker := index
        offset := n.position } s' := { h₁.trans hran with }
    exact extends_settled (hend.leave _)
  | contentOut hcalls => exact extends_swallowed (hcalls.extends ht h).1
  | wrapperEnd ha _ _ _ hframe hrun =>
    have h₁ := ha.extends h
    have hran := extends_runEndings (h₁.stack.of_frame hframe) _ _ _ hrun
    exact extends_settled ((h₁.trans hran).leave _)
  | endBefore ha => exact (ha.extends h).next
  | finish he =>
    have h₁ := Template.extends_advance h he.run_eq
    exact ⟨h₁.session, h₁.stack.openEndings _⟩

theorem extends_cursorAt (c : Component ω δ) (place : Place) {stack : EndingStack (Ending ω)}
    (hstack : stack.Each Render.Extends) (s : Session ω) :
    (c.cursorAt place stack).Extends s s :=
  ⟨.refl s, (fun _ hmark => by cases hmark), hstack⟩

/-- No output from before the walk is taken back in it. -/
theorem Reaches.extends (h : c.Reaches data cur₀ s₀ cur s) (hs₀ : s₀.response.halted = false)
    (ht : c.template.Extends data) (hcur₀ : cur₀.Extends s₀ s₀) : cur.Extends s₀ s :=
  (h.invariant (fun cur s => cur.Extends s₀ s) hs₀ hcur₀ fun _ _ _ _ _ _ h htrans =>
    htrans.extends ht h).2

/-- A run only adds to the output, and so do the endings that it hands over. -/
theorem extends_of_run (ht : c.template.Extends data)
    (h : c.run data place s = .ok (outcome, s')) :
    s.Extends s' ∧ ∀ ending ∈ outcome.carried, Render.Extends ending := by
  rcases run_eq_ok h with ⟨-, rfl, rfl⟩ | ⟨hrunning, stack, hwalk⟩
  · exact ⟨.refl _, fun _ hending => by cases hending⟩
  · exact loop_induction (fun cur s' => cur.Extends s s')
      (fun outcome stack s' => (Next.stop outcome stack).Extends s s') hwalk hrunning
      (extends_cursorAt c place (.ofDepth _) s) (fun _ _ _ _ _ h htrans => htrans.extends ht h)
      fun _ _ _ h htrans => htrans.extends ht h

theorem extends_render (ht : c.template.Extends data) : Render.Extends (c.render data) := by
  intro s u s' h
  obtain ⟨outcome, s₁, hrun, hrest⟩ := ok_of_bind h
  obtain ⟨hadded, hcarried⟩ := extends_of_run ht hrun
  cases outcome with
  | halted =>
    cases hrest
    exact hadded
  | finished carried | swallowed resume carried =>
    exact hadded.trans (extends_runEndings hcarried _ _ _ hrest)

end Component

/-! ## 4. Wrappers -/

section Wrapper

variable {w : Wrapper ω δ} {data : δ}

theorem Wrapper.extends_renderPost (ht : w.template.Extends data) (place : Place) :
    Render.Extends (w.renderPost data place) := by
  intro s u s' h
  obtain ⟨outcome, s₁, hrun, hpure⟩ := ok_of_bind h
  cases hpure
  exact (Component.extends_of_run (c := w.postContent) ht hrun).1

theorem Wrapper.extends_render (ht : w.template.Extends data) {payload : Render ω Unit}
    (hpayload : Render.Extends payload) : Render.Extends (w.render data payload) := by
  intro s u s' h
  obtain ⟨outcome, s₁, hrun, hrest⟩ := ok_of_bind h
  obtain ⟨hadded, hcarried⟩ := Component.extends_of_run (c := w.preContent) ht hrun
  cases outcome with
  | halted =>
    cases hrest
    exact hadded
  | finished carried =>
    have hafter : Render.Extends (do payload; runEndings carried; w.renderPost data w.content) :=
      extends_bind hpayload fun _ => extends_bind (extends_runEndings hcarried) fun _ =>
        extends_renderPost ht w.content
    exact hadded.trans (hafter _ _ _ hrest)
  | swallowed resume carried =>
    have hafter : Render.Extends (do runEndings carried; w.renderPost data resume) :=
      extends_bind (extends_runEndings hcarried) fun _ => extends_renderPost ht resume
    exact hadded.trans (hafter _ _ _ hrest)

theorem WrapperRender.extends_wrap (ht : w.template.Extends data) :
    WrapperRender.Extends (WrapperRender.wrap w data) := by
  intro scope s u scope' s' hscope h
  obtain ⟨outcome, hrun, hregistered⟩ := wrap_eq_ok h
  obtain ⟨hadded, hcarried⟩ := Component.extends_of_run (c := w.preContent) ht hrun
  refine ⟨hadded, ?_⟩
  obtain ⟨-, rfl⟩ | ⟨place, -, hendings⟩ := hregistered
  · exact hscope
  · rw [hendings]
    exact List.forall_mem_append.mpr ⟨hcarried, List.forall_mem_cons.mpr
      ⟨Wrapper.extends_renderPost ht place, hscope⟩⟩

end Wrapper

end HtmlTemplate
