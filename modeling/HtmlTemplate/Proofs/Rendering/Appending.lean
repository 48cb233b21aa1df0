import HtmlTemplate.Proofs.Rendering.Blindness
import HtmlTemplate.Proofs.Rendering.Transitions

/-!
# Rendering appends

A render adds to the output what it would write to an empty one, if its callbacks do not look
at the output. Output is taken back only where an element is dropped, and only as far as the
`<` of its start tag, which the same walk has written: behind other output, the sizes that a
walk keeps are greater by the size of that output (`Cursor.behind`), and nothing else differs.

Results:
1. `matches_dropElement`: the output is cut back to the same byte.
2. `matches_step`, `matches_loop`: a walk behind other output.
3. `Component.blind_render`, `Wrapper.blind_render`, `WrapperRender.blind_wrap`: renders are
   blind if their callbacks are.
4. `rendering_appends_of_compile`: so are the renders of a compiled template, and a callback
   that inserts one is blind again.
-/

namespace HtmlTemplate

open Render

variable {ω δ α β : Type} {written : ByteArray}

/-! ## 1. Walks -/

/-- No ending on the stack looks at what was written before. -/
def EndingStack.Blind (stack : EndingStack (Ending ω)) : Prop :=
  ∀ frame ∈ stack.frames, ∀ ending ∈ frame, Render.Blind ending

namespace EndingStack.Blind

variable {stack : EndingStack (Ending ω)} {depth : Nat} {frame : List (Ending ω)}

theorem ofDepth (depth : Nat) :
    EndingStack.Blind (EndingStack.ofDepth depth : EndingStack (Ending ω)) :=
  Each.ofDepth depth

theorem setFrame (h : stack.Blind) (depth : Nat)
    (hframe : ∀ ending ∈ frame, Render.Blind ending) : (stack.setFrame depth frame).Blind :=
  Each.setFrame h depth hframe

theorem of_frame (h : stack.Blind) (hf : stack.frame? depth = some frame) :
    ∀ ending ∈ frame, Render.Blind ending :=
  Each.of_frame h hf

theorem openEndings (h : stack.Blind) (depth : Nat) :
    ∀ ending ∈ stack.openEndings depth, Render.Blind ending :=
  Each.openEndings h depth

end EndingStack.Blind

/-- The cursor of the same walk behind other output. -/
def Cursor.behind (cur : Cursor ω) (written : ByteArray) : Cursor ω :=
  { cur with
    tagMark := cur.tagMark.map fun mark => { mark with size := written.size + mark.size } }

/-- The second cursor is that of the same walk behind other output. -/
def Cursor.Matches (written : ByteArray) (cur cur' : Cursor ω) : Prop :=
  cur' = cur.behind written ∧ cur.stack.Blind

/-- The endings that are handed over do not look at what was written before. -/
def Outcome.Blind : Outcome ω → Prop
  | .halted => True
  | .finished carried | .swallowed _ carried => ∀ ending ∈ carried, Render.Blind ending

/-- The same follows in a walk behind other output. -/
inductive Next.Matches (written : ByteArray) : Next ω → Next ω → Prop
  | goto (cur : Cursor ω) : cur.stack.Blind →
      Next.Matches written (.goto cur) (.goto (cur.behind written))
  | stop {outcome : Outcome ω} (stack : EndingStack (Ending ω)) : outcome.Blind →
      Next.Matches written (.stop outcome stack) (.stop outcome stack)

theorem Template.blind_writeLiteral (t : Template ω δ) (start stop : Nat) :
    Render.Blind (t.writeLiteral start stop) := by
  unfold Template.writeLiteral
  split
  · exact blind_respond (.writeRawBytes _)
  · exact blind_throw _

theorem Template.blind_marker (t : Template ω δ) (index : Nat) : Render.Blind (t.marker index) :=
  t.marker_eq_elim index ▸ blind_elim _ _

theorem Template.blind_element (t : Template ω δ) (index : Nat) :
    Render.Blind (t.element index) :=
  t.element_eq_elim index ▸ blind_elim _ _

namespace Component

variable {c : Component ω δ} {data : δ} (cur : Cursor ω)

theorem matches_advance {t : Template ω δ} (h : cur.stack.Blind) (stop : Nat) :
    Render.Matches written (t.advance cur stop) (t.advance (cur.behind written) stop)
      (Cursor.Matches written) :=
  matches_bind_blind (t.blind_writeLiteral _ _) fun _ => matches_pure ⟨rfl, h⟩

/-- The sizes marked in the second walk are greater by what is written before. -/
theorem matches_passTags {t : Template ω δ} (limit : Nat) (elements : List Element)
    (h : cur.stack.Blind) :
    Render.Matches written (t.passTags limit elements cur)
      (t.passTags limit elements (cur.behind written)) (Cursor.Matches written) := by
  induction elements generalizing cur with
  | nil => exact matches_pure ⟨rfl, h⟩
  | cons e rest ih =>
    unfold Template.passTags
    split
    · show Render.Matches written (if cur.offset ≤ e.openStart then _ else _)
        (if cur.offset ≤ e.openStart then _ else _) _
      split
      · refine matches_bind (matches_advance cur h _) ?_
        rintro cur₁ _ ⟨rfl, h₁⟩
        refine matches_bind matches_outputSize ?_
        rintro size _ rfl
        exact ih { cur₁ with tagMark := some { start := e.openStart, size := size } } h₁
      · exact ih cur h
    · exact matches_pure ⟨rfl, h⟩

theorem blind_frame (depth : Nat) : Render.Blind (cur.frame depth) :=
  cur.frame_eq_elim depth ▸ blind_elim _ _

theorem matches_frame (h : cur.stack.Blind) (depth : Nat) :
    Render.Matches written (cur.frame depth) ((cur.behind written).frame depth)
      fun frame frame' => frame = frame' ∧ ∀ ending ∈ frame, Render.Blind ending :=
  ((blind_frame cur depth).matches written).and_result fun _ _ _ hx =>
    h.of_frame (frame_eq_ok.mp hx).1

theorem matches_handOver (h : cur.stack.Blind) :
    Render.Matches written (c.handOver cur) (c.handOver (cur.behind written))
      fun p q => p = q ∧ ∀ ending ∈ p.1, Render.Blind ending := by
  show Render.Matches written (c.handOver cur) (c.handOver cur) _
  unfold handOver
  split
  · exact matches_pure ⟨rfl, fun _ hending => by cases hending⟩
  · split
    · exact matches_pure ⟨rfl, h.openEndings _⟩
    · exact matches_throw _

theorem matches_swallow (h : cur.stack.Blind) (resume : Place) :
    Render.Matches written (c.swallow cur resume) (c.swallow (cur.behind written) resume)
      (Next.Matches written) := by
  refine matches_bind (matches_handOver cur h) ?_
  rintro p _ ⟨rfl, hp⟩
  exact matches_pure (.stop _ hp)

/-- The walk ends if the response is halted. -/
theorem matches_unless_stopped {stack : EndingStack (Ending ω)} {x y : Render ω (Next ω)}
    (h : Render.Matches written x y (Next.Matches written)) :
    Render.Matches written (do if ← Render.isHalted then return .stop .halted stack else x)
      (do if ← Render.isHalted then return .stop .halted stack else y) (Next.Matches written) :=
  matches_unless_halted (.stop stack trivial) h

theorem matches_proceed (h : cur.stack.Blind) :
    Render.Matches written (proceed cur) (proceed (cur.behind written)) (Next.Matches written) :=
  matches_unless_stopped (matches_pure (.goto cur h))

theorem matches_finish (h : cur.stack.Blind) :
    Render.Matches written (c.finish cur) (c.finish (cur.behind written))
      (Next.Matches written) := by
  refine matches_bind (matches_advance cur h _) ?_
  rintro cur₁ _ ⟨rfl, h₁⟩
  refine matches_unless_stopped (matches_bind (matches_handOver cur₁ h₁) ?_)
  rintro p _ ⟨rfl, hp⟩
  exact matches_pure (.stop _ hp)

theorem matches_takeJump (h : cur.stack.Blind) (jump : Jump) :
    Render.Matches written (c.takeJump cur jump) (c.takeJump (cur.behind written) jump)
      (Next.Matches written) := by
  refine matches_bind (matches_advance cur h _) ?_
  rintro cur₁ _ ⟨rfl, h₁⟩
  split
  · exact matches_swallow cur₁ h₁ _
  · exact matches_pure (.goto (cur₁.moveTo _) h₁)

theorem matches_closeWrapper (h : cur.stack.Blind) :
    Render.Matches written (closeWrapper cur) (closeWrapper (cur.behind written))
      (Next.Matches written) := by
  have hdepth : (cur.behind written).depth = cur.depth := rfl
  rw [closeWrapper, closeWrapper, hdepth]
  split
  · exact matches_throw _
  · next depth _ =>
    refine matches_bind (matches_frame cur h depth) ?_
    rintro frame _ ⟨rfl, hframe⟩
    exact matches_bind_blind (blind_runEndings hframe) fun _ =>
      matches_proceed (cur.leave depth) (h.setFrame depth fun _ hending => by cases hending)

/-- The wrapper whose content is dropped has been opened in both walks. -/
theorem matches_dropContent (h : cur.stack.Blind) (closing? : Option Nat) :
    Render.Matches written (c.dropContent cur closing?)
      (c.dropContent (cur.behind written) closing?) (Next.Matches written) := by
  unfold dropContent
  split
  · exact matches_throw _
  · next index =>
    refine matches_bind_blind (c.template.blind_marker index) fun m => ?_
    split
    · exact matches_swallow cur h _
    · exact matches_closeWrapper { cur with marker := index, offset := m.position } h

/-- A marked size is greater by what is written before, and so is the size of the output. -/
theorem matches_sizeBefore (e : Element) :
    Render.Matches written (sizeBefore cur e) (sizeBefore (cur.behind written) e)
      fun n m => m = written.size + n := by
  unfold sizeBefore Cursor.behind
  cases cur.tagMark with
  | none => exact matches_outputSize
  | some mark =>
    simp only [Option.map_some]
    split
    · exact matches_pure rfl
    · exact matches_outputSize

/-- The output is cut back to the same byte. -/
theorem matches_dropElement (h : cur.stack.Blind) (e : Element) :
    Render.Matches written (c.dropElement cur e) (c.dropElement (cur.behind written) e)
      (Next.Matches written) := by
  rw [dropElement_eq, dropElement_eq]
  refine matches_bind (matches_sizeBefore cur e) ?_
  rintro size _ rfl
  refine matches_bind (matches_truncate size) fun _ _ _ => ?_
  simp only
  split
  · exact matches_swallow cur h _
  · exact matches_pure (.goto (cur.moveTo _) h)

theorem matches_runPlain (h : cur.stack.Blind) {run : Render ω Unit} (hrun : Render.Blind run) :
    Render.Matches written (runPlain cur run) (runPlain (cur.behind written) run)
      (Next.Matches written) :=
  matches_bind_blind hrun fun _ => matches_proceed cur.next h

theorem behind_planJump (e : Element) :
    c.planJump (cur.behind written) e = (c.planJump cur e).behind written := by
  unfold planJump
  split <;> rfl

theorem stack_planJump (e : Element) :
    (c.planJump cur e).stack = cur.stack := by
  unfold planJump
  split <;> rfl

theorem matches_runAttributes (h : cur.stack.Blind) {run : AttributeRender ω Unit}
    (hrun : AttributeRender.Blind run) (e : Element) :
    Render.Matches written (c.runAttributes cur run e)
      (c.runAttributes (cur.behind written) run e) (Next.Matches written) := by
  refine matches_bind_blind (hrun {}) fun p => matches_unless_stopped ?_
  split
  · exact matches_dropElement cur h e
  · split
    · rw [behind_planJump]
      exact matches_pure (.goto _ ((stack_planJump cur e).symm ▸ h))
    · exact matches_pure (.goto cur.next h)

theorem matches_runWrapperStart (h : cur.stack.Blind) {run : WrapperRender ω Unit}
    (hrun : WrapperRender.Blind run) (closing? : Option Nat) :
    Render.Matches written (c.runWrapperStart cur run closing?)
      (c.runWrapperStart (cur.behind written) run closing?) (Next.Matches written) := by
  refine matches_bind (matches_frame cur h cur.depth) ?_
  rintro frame _ ⟨rfl, hframe⟩
  obtain ⟨hblind, hendings⟩ := hrun { endings := frame } hframe
  have hcall := (hblind.matches written).and_result fun s p s' => hendings s p.1 p.2 s'
  refine matches_bind hcall ?_
  rintro ⟨⟨⟩, scope⟩ _ ⟨rfl, hscope⟩
  have hentered : (cur.enter scope.endings).stack.Blind := h.setFrame cur.depth hscope
  refine matches_unless_stopped ?_
  split
  · exact matches_dropContent (cur.enter scope.endings) hentered closing?
  · exact matches_pure (.goto (cur.enter scope.endings).next hentered)

/-- What a marker says is done in both walks. -/
theorem matches_act (h : cur.stack.Blind) {m : Marker ω δ}
    (hm : ∀ callback, m.action.callback? = some callback → callback.Blind data) :
    Render.Matches written (c.act data cur m) (c.act data (cur.behind written) m)
      (Next.Matches written) := by
  unfold act
  cases ha : m.action with
  | plain run => exact matches_runPlain cur h (hm (.plain run) (by rw [ha]; rfl))
  | attributes run index =>
    exact matches_bind_blind (c.template.blind_element index) fun e =>
      matches_runAttributes cur h (hm (.attributes run) (by rw [ha]; rfl)) e
  | wrapperStart run closing? =>
    exact matches_runWrapperStart cur h (hm (.wrapper run) (by rw [ha]; rfl)) closing?
  | wrapperEnd opening =>
    simp only
    split
    · exact matches_closeWrapper cur h
    · exact matches_pure (.goto cur.next h)

theorem matches_visit (ht : c.template.Blind data) (h : cur.stack.Blind) :
    Render.Matches written (c.visit data cur) (c.visit data (cur.behind written))
      (Next.Matches written) := by
  show Render.Matches written (c.visit data cur)
    (if cur.marker < c.exit.marker then _ else _) (Next.Matches written)
  unfold visit
  split
  · refine matches_bind (((c.template.blind_marker cur.marker).matches written).and_result
      fun _ _ _ hm => (marker_eq_ok.mp hm).1) ?_
    rintro m _ ⟨rfl, hm⟩
    refine matches_bind (matches_passTags cur m.position cur.elements h) ?_
    rintro cur₁ _ ⟨rfl, h₁⟩
    refine matches_bind (matches_advance cur₁ h₁ m.position) ?_
    rintro cur₂ _ ⟨rfl, h₂⟩
    exact matches_unless_stopped (matches_act cur₂ h₂ fun callback => ht _ m callback hm)
  · exact matches_finish cur h

theorem blind_nextPosition : Render.Blind (c.nextPosition cur) := by
  unfold nextPosition
  split
  · exact blind_bind (c.template.blind_marker _) fun m => blind_pure _
  · exact blind_pure _

theorem matches_step (ht : c.template.Blind data) (h : cur.stack.Blind) :
    Render.Matches written (c.step data cur) (c.step data (cur.behind written))
      (Next.Matches written) := by
  have hjump : (cur.behind written).jump = cur.jump := rfl
  rw [step, step, hjump]
  split
  · exact matches_visit cur ht h
  · next jump _ =>
    refine matches_bind_blind (blind_nextPosition cur) fun position => ?_
    split
    · exact matches_takeJump cur h jump
    · exact matches_visit cur ht h

/-- A walk ends alike behind other output. -/
theorem matches_loop (ht : c.template.Blind data) (h : cur.stack.Blind) :
    Render.Matches written (c.loop data cur) (c.loop data (cur.behind written))
      fun p q => p = q ∧ p.1.Blind := by
  induction hn : c.remaining cur using Nat.strongRecOn generalizing cur with
  | _ n ih =>
    subst hn
    rw [loop, loop]
    refine matches_bind (matches_step cur ht h) ?_
    intro next next' hnext
    cases hnext with
    | stop stack houtcome => exact matches_pure ⟨rfl, houtcome⟩
    | goto cur' h' =>
      show Render.Matches written
        (if c.remaining cur' < c.remaining cur then c.loop data cur' else throw (.stuck cur.marker))
        (if c.remaining cur' < c.remaining cur then c.loop data (cur'.behind written)
          else throw (.stuck cur.marker)) _
      split
      · next hlt => exact ih _ hlt cur' h' rfl
      · exact matches_throw _

theorem matches_run (ht : c.template.Blind data) (place : Place) :
    Render.Matches written (c.run data place) (c.run data place)
      fun o o' => o = o' ∧ o.Blind := by
  refine matches_unless_halted ⟨rfl, trivial⟩ ?_
  have hcur : (c.cursorAt place (EndingStack.ofDepth c.maxNesting)).stack.Blind := .ofDepth _
  refine matches_bind (matches_loop _ ht hcur) ?_
  rintro p _ ⟨rfl, hp⟩
  exact matches_pure ⟨rfl, hp⟩

theorem blind_run (ht : c.template.Blind data) (place : Place) : Render.Blind (c.run data place) :=
  blind_of_matches fun _ => (matches_run ht place).imp fun _ _ h => h.1

/-- Rendering a component is blind if its callbacks are. -/
theorem blind_render (ht : c.template.Blind data) : Render.Blind (c.render data) := by
  refine blind_of_matches fun written => matches_bind (matches_run ht c.entry) ?_
  rintro outcome _ ⟨rfl, houtcome⟩
  cases outcome with
  | halted => exact matches_pure rfl
  | finished carried | swallowed resume carried => exact (blind_runEndings houtcome).matches written

end Component

/-! ## 2. Wrappers -/

section Wrapper

variable {w : Wrapper ω δ} {data : δ}

theorem Wrapper.blind_renderPost (ht : w.template.Blind data) (place : Place) :
    Render.Blind (w.renderPost data place) :=
  blind_bind (Component.blind_run ht place) fun _ => blind_pure ()

/-- Rendering a wrapper is blind if its callbacks and what it is put around are. -/
theorem Wrapper.blind_render (ht : w.template.Blind data) {payload : Render ω Unit}
    (hpayload : Render.Blind payload) : Render.Blind (w.render data payload) := by
  refine blind_of_matches fun written =>
    matches_bind (Component.matches_run (c := w.preContent) ht _) ?_
  rintro outcome _ ⟨rfl, houtcome⟩
  cases outcome with
  | halted => exact matches_pure rfl
  | finished carried =>
    refine Render.Blind.matches ?_ written
    exact blind_bind hpayload fun _ => blind_bind (blind_runEndings houtcome) fun _ =>
      blind_renderPost ht _
  | swallowed resume carried =>
    exact (blind_bind (blind_runEndings houtcome) fun _ => blind_renderPost ht _).matches written

/-- The part before the content marker is rendered alike, and what is left for the wrapper
end is blind. -/
theorem WrapperRender.matches_wrap (ht : w.template.Blind data) (scope : WrapperScope ω)
    (written : ByteArray) :
    Render.Matches written ((WrapperRender.wrap w data).run scope)
      ((WrapperRender.wrap w data).run scope) fun p q => p = q ∧
        ∃ later, p.2.endings = later ++ scope.endings ∧ ∀ ending ∈ later, Render.Blind ending := by
  have hlater : ∀ (place : Place) (carried : List (Ending ω)),
      (∀ ending ∈ carried, Render.Blind ending) →
      ∃ later, carried ++ w.renderPost data place :: scope.endings = later ++ scope.endings ∧
        ∀ ending ∈ later, Render.Blind ending := by
    intro place carried hcarried
    refine ⟨carried ++ [w.renderPost data place], by simp, fun ending hending => ?_⟩
    rcases List.mem_append.mp hending with hmem | hmem
    · exact hcarried ending hmem
    · exact List.mem_singleton.mp hmem ▸ Wrapper.blind_renderPost ht place
  unfold WrapperRender.wrap
  rw [StateT.run_bind, StateT.run_lift, bind_assoc]
  refine matches_bind (Component.matches_run (c := w.preContent) ht _) ?_
  rintro outcome _ ⟨rfl, houtcome⟩
  rw [pure_bind]
  cases outcome with
  | halted => exact matches_pure ⟨rfl, [], rfl, fun _ hending => by cases hending⟩
  | finished carried => exact matches_pure ⟨rfl, hlater w.content carried houtcome⟩
  | swallowed resume carried => exact matches_pure ⟨rfl, hlater resume carried houtcome⟩

theorem WrapperRender.blind_wrap (ht : w.template.Blind data) :
    WrapperRender.Blind (WrapperRender.wrap w data) := by
  intro scope hscope
  refine ⟨blind_of_matches fun written => (matches_wrap ht scope written).imp fun _ _ h => h.1, ?_⟩
  intro s a scope' s' hrun
  obtain ⟨-, ⟨-, later, hlater, hblind⟩, -⟩ :=
    (matches_wrap ht scope .empty).result s (a, scope') s' hrun
  exact hlater ▸ List.forall_mem_append.mpr ⟨hblind, hscope⟩

end Wrapper

/-! ## 3. Compiled templates -/

/-- A compiled template appends what it writes to an empty output, and otherwise does what
it does then, if its callbacks do so: as a component, as either part of a wrapper, around
a payload that does so, and at a wrapper start. -/
theorem rendering_appends_of_compile {declarations : List (Declaration ω δ)}
    (hd : ∀ d ∈ declarations, d.Blind) (source : String) (data : δ) :
    (∀ c, Component.compile source declarations = .ok c → Render.Blind (c.render data)) ∧
      ∀ w, Wrapper.compile source declarations = .ok w →
        Render.Blind (w.preContent.render data) ∧ Render.Blind (w.postContent.render data) ∧
        (∀ payload, Render.Blind payload → Render.Blind (w.render data payload)) ∧
        WrapperRender.Blind (WrapperRender.wrap w data) := by
  have hcallbacks : ∀ d ∈ declarations, ∀ callback, d.callback = some callback →
      callback.Blind data := fun d hmem callback hc => hd d hmem callback hc data
  refine ⟨fun c h => ?_, fun w h => ?_⟩
  · exact Component.blind_render (Component.eachCallback_of_compile h hcallbacks)
  · have ht := Wrapper.eachCallback_of_compile h hcallbacks
    exact ⟨Component.blind_render (c := w.preContent) ht,
      Component.blind_render (c := w.postContent) ht,
      fun _ hpayload => Wrapper.blind_render ht hpayload, WrapperRender.blind_wrap ht⟩

/-- Notes that a callback has run. -/
def noteRun (name : String) : Render (List String) Unit :=
  Render.look fun _ _ _ names => ((), name :: names)

/-- The source `<b ${drop}>old</b>new`. -/
def droppedTagSource : String := "<b $\x7bdrop\x7d>old</b>new"

/-- Its declarations: the element is dropped. -/
def droppedTag : List (Declaration (List String) Unit) :=
  [.attributes "drop" fun _ => do
    StateT.lift (noteRun "drop")
    AttributeRender.skipElement]

/-- The source `<i>${insert}</i>`. -/
def insertingSource : String := "<i>$\x7binsert\x7d</i>"

/-- Its declarations: another component is inserted, behind some text. -/
def inserting (inner : Component (List String) Unit) : List (Declaration (List String) Unit) :=
  [.plain "insert" fun _ => do
    noteRun "insert"
    Render.respond (.write "<")
    inner.render ()]

theorem rendering_appends_of_inserting :
    ∃ inner, Component.compile droppedTagSource droppedTag = .ok inner ∧
      Render.Blind (inner.render ()) ∧
      ∃ outer, Component.compile insertingSource (inserting inner) = .ok outer ∧
        Render.Blind (outer.render ()) := by
  have hdropped : ∀ d ∈ droppedTag, d.Blind := by
    rintro d hmem _ hc ⟨⟩
    cases List.mem_singleton.mp hmem
    cases hc
    exact AttributeRender.blind_bind (AttributeRender.blind_lift (Render.blind_look _)) fun _ =>
      AttributeRender.blind_skipElement
  have hcompile : ((Component.compile droppedTagSource droppedTag).toOption.any fun inner =>
      (Component.compile insertingSource (inserting inner)).isOk) = true := by
    decide +kernel
  obtain ⟨inner, hinner, hcompile⟩ := exists_ok_of_any hcompile
  obtain ⟨outer, houter⟩ := exists_eq_ok hcompile
  have hblind := (rendering_appends_of_compile hdropped _ ()).1 inner hinner
  have hinserting : ∀ d ∈ inserting inner, d.Blind := by
    rintro d hmem _ hc ⟨⟩
    cases List.mem_singleton.mp hmem
    cases hc
    exact blind_bind (Render.blind_look _) fun _ => blind_bind (blind_respond _) fun _ => hblind
  exact ⟨inner, hinner, hblind, outer, houter,
    (rendering_appends_of_compile hinserting _ ()).1 outer houter⟩

end HtmlTemplate
