import HtmlTemplate.Proofs.Rendering.Mirroring
import HtmlTemplate.Proofs.Rendering.Onward
import HtmlTemplate.Proofs.Template.Matching

/-!
# Walks on stacks that are used again

A walk does not look at the frames above those of the open wrappers, and it finds a frame for each
wrapper that it opens if there is room for as many as may be open at a time. So it is no matter
which stack it is given, as long as that is clear and deep enough: one that fits the component or
one that a deeper component has left behind. When the walk is over, the stack is clear again,
unless the response was halted.

All of this is said of two walks in worlds of their own, with callbacks that mirror each other.
Both cursors stand at the same place (`Cursor.onStack`), and the frames of the open wrappers hold
endings that mirror each other (`Cursor.Shares`).

Results:
1. `Shares.enter`, `Shares.leave`: a wrapper is opened or closed on both stacks.
2. `mirrors_act`, `mirrors_step`: a step of both walks.
3. `mirrors_walk`: walks from places where no wrapper is open.
4. `Component.walksAlike`: in a single world, any two stacks.
-/

namespace HtmlTemplate

open Render

variable {ω' ω δ : Type} {r : ω' → ω → Prop}

/-! ## 1. Cursors at the same place -/

namespace Cursor

/-- The cursor at the same place in another world, with a stack of its own. -/
def onStack (cur : Cursor ω) (stack : EndingStack (Ending ω')) : Cursor ω' :=
  { marker := cur.marker
    offset := cur.offset
    depth := cur.depth
    jump := cur.jump
    tagMark := cur.tagMark
    elements := cur.elements
    stack := stack }

/-- The frames of the open wrappers hold endings that mirror each other, all others none, and
each stack has room for `room` nested wrappers. -/
structure Shares (r : ω' → ω → Prop) (room : Nat) (stack' : EndingStack (Ending ω'))
    (cur : Cursor ω) : Prop where
  frames : ∃ frames' frames, (cur.onStack stack').Holding frames' ∧ cur.Holding frames ∧
    List.Forall₂ (EndingsMirror r) frames' frames
  room_le' : room ≤ stack'.depthCapacity
  room_le : room ≤ cur.stack.depthCapacity

namespace Shares

variable {room depth : Nat} {stack' : EndingStack (Ending ω')} {cur cur₁ : Cursor ω}

/-- Elsewhere, with the same wrappers open. -/
theorem congr (h : cur.Shares r room stack') (hd : cur₁.depth = cur.depth)
    (hs : cur₁.stack = cur.stack) : cur₁.Shares r room stack' := by
  obtain ⟨frames', frames, hf', hf, hendings⟩ := h.frames
  exact ⟨⟨frames', frames, hf'.congr hd rfl, hf.congr hd hs, hendings⟩, h.room_le',
    hs ▸ h.room_le⟩

theorem next (h : cur.Shares r room stack') : cur.next.Shares r room stack' :=
  h.congr rfl rfl

theorem moveTo (h : cur.Shares r room stack') (place : Place) :
    (cur.moveTo place).Shares r room stack' :=
  h.congr rfl rfl

/-- The frame for the next wrapper is there on both stacks, and empty. -/
theorem frame_next (h : cur.Shares r room stack') (hlt : cur.depth < room) :
    stack'.frame? cur.depth = some [] ∧ cur.stack.frame? cur.depth = some [] := by
  obtain ⟨frames', frames, hf', hf, -⟩ := h.frames
  have hframe' := List.getElem?_eq_getElem (Nat.lt_of_lt_of_le hlt h.room_le')
  have hframe := List.getElem?_eq_getElem (Nat.lt_of_lt_of_le hlt h.room_le)
  rw [hf'.frame_eq_nil hframe'] at hframe'
  rw [hf.frame_eq_nil hframe] at hframe
  exact ⟨hframe', hframe⟩

/-- Inside of one more wrapper, whose callbacks have registered endings. -/
theorem enter (h : cur.Shares r room stack') (hlt : cur.depth < room)
    {endings' : List (Ending ω')} {endings : List (Ending ω)}
    (hendings : EndingsMirror r endings' endings) :
    (cur.enter endings).Shares r room (stack'.setFrame cur.depth endings') := by
  obtain ⟨hframe', hframe⟩ := h.frame_next hlt
  obtain ⟨frames', frames, hf', hf, hall⟩ := h.frames
  refine ⟨⟨endings' :: frames', endings :: frames, hf'.enter hframe' endings',
    hf.enter hframe endings, .cons hendings hall⟩, ?_, ?_⟩
  · exact (EndingStack.depthCapacity_setFrame _ _ _).symm ▸ h.room_le'
  · exact (EndingStack.depthCapacity_setFrame _ _ _).symm ▸ h.room_le

/-- The frames of the innermost wrapper, and the stacks without them. -/
theorem leave (h : cur.Shares r room stack') (hd : cur.depth = depth + 1) :
    ∃ frame' frame, stack'.frame? depth = some frame' ∧ cur.stack.frame? depth = some frame ∧
      EndingsMirror r frame' frame ∧
      (cur.leave depth).Shares r room (stack'.setFrame depth []) := by
  obtain ⟨frames', frames, hf', hf, hall⟩ := h.frames
  cases hall with
  | nil => cases hd.symm.trans hf.depth_eq
  | @cons frame' frame rest' rest hfirst hrest =>
    refine ⟨frame', frame, hf'.frame?_eq hd, hf.frame?_eq hd, hfirst,
      ⟨rest', rest, hf'.leave hd, hf.leave hd, hrest⟩, ?_, ?_⟩
    · exact (EndingStack.depthCapacity_setFrame _ _ _).symm ▸ h.room_le'
    · exact (EndingStack.depthCapacity_setFrame _ _ _).symm ▸ h.room_le

/-- The endings of all open wrappers, and the stacks when they are taken off. -/
theorem pending (h : cur.Shares r room stack') :
    EndingsMirror r (cur.onStack stack').pending cur.pending ∧
      (cur.onStack stack').cleared.isClear = true ∧ cur.cleared.isClear = true := by
  obtain ⟨frames', frames, hf', hf, hall⟩ := h.frames
  refine ⟨?_, hf'.isClear_cleared, hf.isClear_cleared⟩
  rw [hf'.pending_eq, hf.pending_eq]
  exact List.rel_flatten hall

end Shares

end Cursor

/-- Walks that end alike. -/
inductive Outcome.Mirrors (r : ω' → ω → Prop) : Outcome ω' → Outcome ω → Prop
  | halted : Mirrors r .halted .halted
  | finished {carried' : List (Ending ω')} {carried : List (Ending ω)} :
      EndingsMirror r carried' carried → Mirrors r (.finished carried') (.finished carried)
  | swallowed (resume : Place) {carried' : List (Ending ω')} {carried : List (Ending ω)} :
      EndingsMirror r carried' carried →
      Mirrors r (.swallowed resume carried') (.swallowed resume carried)

/-- The walks end alike, and both stacks are clear unless the response is halted. -/
structure EndsClear (r : ω' → ω → Prop) (p' : Outcome ω' × EndingStack (Ending ω'))
    (p : Outcome ω × EndingStack (Ending ω)) : Prop where
  outcome : p'.1.Mirrors r p.1
  isClear : p.1 ≠ .halted → p'.2.isClear = true ∧ p.2.isClear = true

/-- The walks go on at the same place or end alike. -/
inductive Next.Mirrors (r : ω' → ω → Prop) (room : Nat) : Next ω' → Next ω → Prop
  | goto {cur : Cursor ω} {stack' : EndingStack (Ending ω')} :
      cur.Shares r room stack' → Mirrors r room (.goto (cur.onStack stack')) (.goto cur)
  | stop {outcome' : Outcome ω'} {stack' : EndingStack (Ending ω')} {outcome : Outcome ω}
      {stack : EndingStack (Ending ω)} : EndsClear r (outcome', stack') (outcome, stack) →
      Mirrors r room (.stop outcome' stack') (.stop outcome stack)

theorem Next.mirrors_halted {room : Nat} (stack' : EndingStack (Ending ω'))
    (stack : EndingStack (Ending ω)) :
    Next.Mirrors r room (.stop .halted stack') (.stop .halted stack) :=
  .stop ⟨.halted, fun h => absurd rfl h⟩

/-! ## 2. Literal bytes, markers and elements -/

namespace Template

variable {t' : Template ω' δ} {t : Template ω δ} {room : Nat} {stack' : EndingStack (Ending ω')}
  {cur : Cursor ω}

theorem mirrors_writeLiteral (ht : t'.Matches (Callback.Mirrors r) t) (start stop : Nat) :
    Render.Mirrors r (t'.writeLiteral start stop) (t.writeLiteral start stop) (· = ·) := by
  unfold writeLiteral
  rw [ht.html_eq]
  split
  · exact mirrors_modifyResponse _
  · exact mirrors_throw _

theorem mirrors_marker (ht : t'.Matches (Callback.Mirrors r) t) (index : Nat) :
    Render.Mirrors r (t'.marker index) (t.marker index) fun m' m =>
      m'.Matches (Callback.Mirrors r) m ∧ t.markers[index]? = some m := by
  refine Render.Mirrors.and_result ?_ fun _ _ _ hx => (Component.marker_eq_ok.mp hx).1
  rw [t'.marker_eq_elim, t.marker_eq_elim]
  exact mirrors_elim (ht.markers.2 index) _

theorem mirrors_element (ht : t'.Matches (Callback.Mirrors r) t) (index : Nat) :
    Render.Mirrors r (t'.element index) (t.element index) (· = ·) := by
  rw [t'.element_eq_elim, t.element_eq_elim, ht.elements_eq]
  refine mirrors_elim ?_ _
  cases t.elements[index]? with
  | none => exact .none
  | some e => exact .some rfl

/-- Both cursors have moved on to the same place, with `depth` wrappers open as before. -/
def MovedOn (r : ω' → ω → Prop) (room depth : Nat) (stack' : EndingStack (Ending ω'))
    (cur' : Cursor ω') (cur : Cursor ω) : Prop :=
  cur' = cur.onStack stack' ∧ cur.Shares r room stack' ∧ cur.depth = depth

theorem mirrors_advance (ht : t'.Matches (Callback.Mirrors r) t) (h : cur.Shares r room stack')
    (stop : Nat) :
    Render.Mirrors r (t'.advance (cur.onStack stack') stop) (t.advance cur stop)
      (MovedOn r room cur.depth stack') :=
  mirrors_bind (mirrors_writeLiteral ht _ _) fun _ _ _ =>
    mirrors_pure ⟨rfl, h.congr rfl rfl, rfl⟩

theorem mirrors_passTags (ht : t'.Matches (Callback.Mirrors r) t) (limit : Nat)
    (elements : List Element) (h : cur.Shares r room stack') :
    Render.Mirrors r (t'.passTags limit elements (cur.onStack stack'))
      (t.passTags limit elements cur) (MovedOn r room cur.depth stack') := by
  induction elements generalizing cur with
  | nil => exact mirrors_pure ⟨rfl, h.congr rfl rfl, rfl⟩
  | cons e rest ih =>
    unfold passTags
    split
    · show Render.Mirrors r (if cur.offset ≤ e.openStart then _ else _)
        (if cur.offset ≤ e.openStart then _ else _) _
      split
      · refine mirrors_bind (mirrors_advance ht h _) ?_
        rintro _ cur₁ ⟨rfl, h₁, hdepth⟩
        rw [← hdepth]
        refine mirrors_bind mirrors_outputSize ?_
        rintro size _ rfl
        have hmarked : { cur₁ with tagMark := some ⟨e.openStart, size⟩ : Cursor ω }.Shares r room
            stack' := h₁.congr rfl rfl
        exact ih hmarked
      · exact ih h
    · exact mirrors_pure ⟨rfl, h.congr rfl rfl, rfl⟩

end Template

/-! ## 3. Steps -/

namespace Component

variable {c' : Component ω' δ} {c : Component ω δ} {data : δ} {cur : Cursor ω} {room depth : Nat}
  {stack' : EndingStack (Ending ω')} {content? : Option Place}

theorem mirrors_frame {frame' : List (Ending ω')} {frame : List (Ending ω)}
    (h' : stack'.frame? depth = some frame') (h : cur.stack.frame? depth = some frame) :
    Render.Mirrors r ((cur.onStack stack').frame depth) (cur.frame depth)
      fun x' x => x' = frame' ∧ x = frame := by
  rw [Cursor.frame_eq_elim, Cursor.frame_eq_elim, h, show (cur.onStack stack').stack.frame? depth =
    some frame' from h']
  exact mirrors_pure ⟨rfl, rfl⟩

theorem mirrors_proceed (h : cur.Shares r room stack') :
    Render.Mirrors r (proceed (cur.onStack stack')) (proceed cur) (Next.Mirrors r room) :=
  mirrors_unless_halted (Next.mirrors_halted _ _) (mirrors_pure (.goto h))

theorem mirrors_closeWrapper (h : cur.Shares r room stack') :
    Render.Mirrors r (closeWrapper (cur.onStack stack')) (closeWrapper cur)
      (Next.Mirrors r room) := by
  cases hd : cur.depth with
  | zero =>
    rw [closeWrapper, closeWrapper, show (cur.onStack stack').depth = 0 from hd, hd]
    exact mirrors_throw _
  | succ depth =>
    obtain ⟨frame', frame, hframe', hframe, hendings, hleft⟩ := h.leave hd
    have hd' : (cur.onStack stack').depth = depth + 1 := hd
    rw [closeWrapper_of_depth hd, closeWrapper_of_depth hd']
    refine mirrors_bind (mirrors_frame hframe' hframe) ?_
    rintro _ _ ⟨rfl, rfl⟩
    exact mirrors_bind (mirrors_runEndings hendings) fun _ _ _ => mirrors_proceed hleft

section Steps

variable (hc : c'.Matches (Callback.Mirrors r) c) (h : cur.Shares r room stack')
include hc h

theorem mirrors_handOver :
    Render.Mirrors r (c'.handOver (cur.onStack stack')) (c.handOver cur) fun p' p =>
      EndingsMirror r p'.1 p.1 ∧ p'.2.isClear = true ∧ p.2.isClear = true := by
  by_cases hover : c.HandsOver cur
  · have hover' : c'.HandsOver (cur.onStack stack') := hover.imp id (hc.part_eq.trans ·)
    rw [handOver_of_handsOver hover', handOver_of_handsOver hover]
    exact mirrors_pure h.pending
  · obtain ⟨hd, hpart⟩ := not_or.mp hover
    rw [handOver, handOver, if_neg hd, if_neg hpart, hc.part_eq, if_neg hpart, if_neg
      (show ¬(cur.onStack stack').depth = 0 from hd)]
    exact mirrors_throw _

theorem mirrors_swallow (resume : Place) :
    Render.Mirrors r (c'.swallow (cur.onStack stack') resume) (c.swallow cur resume)
      (Next.Mirrors r room) :=
  mirrors_bind (mirrors_handOver hc h) fun _ _ hp =>
    mirrors_pure (.stop ⟨.swallowed resume hp.1, fun _ => hp.2⟩)

theorem mirrors_finish :
    Render.Mirrors r (c'.finish (cur.onStack stack')) (c.finish cur) (Next.Mirrors r room) := by
  unfold finish
  rw [hc.exit_eq]
  refine mirrors_bind (Template.mirrors_advance hc.template h _) ?_
  rintro _ cur₁ ⟨rfl, h₁, -⟩
  refine mirrors_unless_halted (Next.mirrors_halted _ _) ?_
  exact mirrors_bind (mirrors_handOver hc h₁) fun _ _ hp =>
    mirrors_pure (.stop ⟨.finished hp.1, fun _ => hp.2⟩)

theorem mirrors_takeJump (jump : Jump) :
    Render.Mirrors r (c'.takeJump (cur.onStack stack') jump) (c.takeJump cur jump)
      (Next.Mirrors r room) := by
  refine mirrors_bind (Template.mirrors_advance hc.template h _) ?_
  rintro _ cur₁ ⟨rfl, h₁, -⟩
  split
  · exact mirrors_swallow hc h₁ _
  · exact mirrors_pure (.goto (h₁.moveTo _))

/-- The content is dropped of a wrapper that has been opened in both walks. -/
theorem mirrors_dropContent (closing? : Option Nat) :
    Render.Mirrors r (c'.dropContent (cur.onStack stack') closing?) (c.dropContent cur closing?)
      (Next.Mirrors r room) := by
  cases closing? with
  | none => exact mirrors_throw _
  | some index =>
    refine mirrors_bind (Template.mirrors_marker hc.template index) ?_
    rintro m' m ⟨hm, -⟩
    rw [hc.exit_eq, hm.position_eq]
    split
    · exact mirrors_swallow hc h _
    · have hend : { cur with marker := index, offset := m.position : Cursor ω }.Shares r room
          stack' := h.congr rfl rfl
      exact mirrors_closeWrapper hend

theorem mirrors_dropElement (e : Element) :
    Render.Mirrors r (c'.dropElement (cur.onStack stack') e) (c.dropElement cur e)
      (Next.Mirrors r room) := by
  have hsize : Render.Mirrors r (sizeBefore (cur.onStack stack') e) (sizeBefore cur e) (· = ·) := by
    rw [sizeBefore, sizeBefore, show (cur.onStack stack').tagMark = cur.tagMark from rfl]
    split
    · split
      · exact mirrors_pure rfl
      · exact mirrors_outputSize
    · exact mirrors_outputSize
  rw [dropElement_eq, dropElement_eq, hc.part_eq]
  refine mirrors_bind hsize ?_
  rintro size _ rfl
  refine mirrors_bind (mirrors_modifyResponse _) fun _ _ _ => ?_
  simp only
  split
  · exact mirrors_swallow hc h _
  · have hmoved := h.moveTo { marker := e.nextMarker, offset := e.closeEnd }
    exact mirrors_pure (.goto hmoved)

omit hc in
theorem mirrors_runPlain {run' : Render ω' Unit} {run : Render ω Unit}
    (hrun : Render.Mirrors r run' run (· = ·)) :
    Render.Mirrors r (runPlain (cur.onStack stack') run') (runPlain cur run)
      (Next.Mirrors r room) :=
  mirrors_bind hrun fun _ _ _ => mirrors_proceed h.next

theorem mirrors_runAttributes {run' : AttributeRender ω' Unit} {run : AttributeRender ω Unit}
    (hrun : run'.Mirrors r run) (e : Element) :
    Render.Mirrors r (c'.runAttributes (cur.onStack stack') run' e) (c.runAttributes cur run e)
      (Next.Mirrors r room) := by
  refine mirrors_bind (hrun {}) ?_
  rintro p _ rfl
  refine mirrors_unless_halted (Next.mirrors_halted _ _) ?_
  split
  · exact mirrors_dropElement hc h e
  · split
    · have hplan : c'.planJump (cur.onStack stack') e = (c.planJump cur e).onStack stack' := by
        unfold planJump
        rw [hc.part_eq]
        split <;> rfl
      rw [hplan]
      refine mirrors_pure (.goto (h.congr ?_ ?_)) <;> unfold planJump <;> split <;> rfl
    · exact mirrors_pure (.goto h.next)

/-- The callbacks find an empty frame on either stack. -/
theorem mirrors_runWrapperStart {run' : WrapperRender ω' Unit} {run : WrapperRender ω Unit}
    (hrun : run'.Mirrors r run) (closing? : Option Nat) (hlt : cur.depth < room) :
    Render.Mirrors r (c'.runWrapperStart (cur.onStack stack') run' closing?)
      (c.runWrapperStart cur run closing?) (Next.Mirrors r room) := by
  obtain ⟨hframe', hframe⟩ := h.frame_next hlt
  refine mirrors_bind (mirrors_frame hframe' hframe) ?_
  rintro _ _ ⟨rfl, rfl⟩
  refine mirrors_bind (hrun {} {} ⟨.nil, rfl⟩) ?_
  rintro ⟨⟨⟩, scope'⟩ ⟨⟨⟩, scope⟩ ⟨-, hscope⟩
  have hentered := h.enter hlt hscope.endings
  refine mirrors_unless_halted (Next.mirrors_halted _ _) ?_
  show Render.Mirrors r (if scope'.skipContent = true then _ else _)
    (if scope.skipContent = true then _ else _) _
  rw [hscope.skipContent_eq]
  split
  · exact mirrors_dropContent hc hentered closing?
  · exact mirrors_pure (.goto hentered.next)

/-- What a marker says is done in both walks. -/
theorem mirrors_act {m' : Marker ω' δ} {m : Marker ω δ}
    (hm : m'.Matches (Callback.Mirrors r) m)
    (hlt : ∀ run closing?, m.action = .wrapperStart run closing? → cur.depth < room) :
    Render.Mirrors r (c'.act data (cur.onStack stack') m') (c.act data cur m)
      (Next.Mirrors r room) := by
  have haction := hm.action
  unfold act
  generalize m'.action = action' at haction
  generalize m.action = action at haction hlt
  cases haction with
  | plain hq =>
    cases hq with
    | plain hrun => exact mirrors_runPlain h (hrun data)
  | attributes index hq =>
    cases hq with
    | attributes hrun =>
      refine mirrors_bind (Template.mirrors_element hc.template index) ?_
      rintro e _ rfl
      exact mirrors_runAttributes hc h (hrun data) e
  | wrapperStart closing? hq =>
    cases hq with
    | wrapper hrun => exact mirrors_runWrapperStart hc h (hrun data) closing? (hlt _ _ rfl)
  | wrapperEnd opening =>
    simp only [hc.entry_eq]
    split
    · exact mirrors_closeWrapper h
    · exact mirrors_pure (.goto h.next)

omit h in
theorem mirrors_nextPosition :
    Render.Mirrors r (c'.nextPosition (cur.onStack stack')) (c.nextPosition cur) (· = ·) := by
  unfold nextPosition
  rw [hc.exit_eq]
  show Render.Mirrors r (if cur.marker < c.exit.marker then _ else _) _ _
  split
  · refine mirrors_bind (Template.mirrors_marker hc.template cur.marker) ?_
    rintro m' m ⟨hm, -⟩
    exact mirrors_pure hm.position_eq
  · exact mirrors_pure rfl

end Steps

/-! ## 4. Walks -/

/-- Where a wrapper starts there is room for it. -/
theorem Placed.depth_lt (hp : c.Placed cur) (hw : c.WellFormed content?) {m : Marker ω δ}
    (hm : c.template.markers[cur.marker]? = some m) {run : δ → WrapperRender ω Unit}
    {closing? : Option Nat} (ha : m.action = .wrapperStart run closing?) :
    cur.depth < c.maxNesting := by
  have hdepth : cur.depth = (c.opened cur.marker).length := hp.depth_eq
  have hle := hw.length_opened_le (Array.getElem?_eq_some_iff.mp hm).1
  rwa [opened_succ_of_start hp.entry_le hm ha, List.length_cons, ← hdepth] at hle

section Walks

variable (hc : c'.Matches (Callback.Mirrors r) c) (hw : c.WellFormed content?)
include hc hw

theorem mirrors_visit (hp : c.Placed cur) (h : cur.Shares r c.maxNesting stack') :
    Render.Mirrors r (c'.visit data (cur.onStack stack')) (c.visit data cur)
      (Next.Mirrors r c.maxNesting) := by
  unfold visit
  rw [hc.exit_eq]
  show Render.Mirrors r (if cur.marker < c.exit.marker then _ else _) _ _
  split
  · refine mirrors_bind (Template.mirrors_marker hc.template cur.marker) ?_
    rintro m' m ⟨hm, hmarker⟩
    rw [hm.position_eq]
    refine mirrors_bind (Template.mirrors_passTags hc.template _ _ h) ?_
    rintro _ cur₁ ⟨rfl, h₁, hdepth₁⟩
    refine mirrors_bind (Template.mirrors_advance hc.template h₁ _) ?_
    rintro _ cur₂ ⟨rfl, h₂, hdepth₂⟩
    refine mirrors_unless_halted (Next.mirrors_halted _ _) (mirrors_act hc h₂ hm ?_)
    intro run closing? ha
    rw [hdepth₂, hdepth₁]
    exact hp.depth_lt hw hmarker ha
  · exact mirrors_finish hc h

theorem mirrors_step (hp : c.Placed cur) (h : cur.Shares r c.maxNesting stack') :
    Render.Mirrors r (c'.step data (cur.onStack stack')) (c.step data cur)
      (Next.Mirrors r c.maxNesting) := by
  cases hj : cur.jump with
  | none =>
    have hj' : (cur.onStack stack').jump = none := hj
    rw [step_of_none hj, step_of_none hj']
    exact mirrors_visit hc hw hp h
  | some jump =>
    have hj' : (cur.onStack stack').jump = some jump := hj
    rw [step_of_some hj, step_of_some hj']
    refine mirrors_bind (mirrors_nextPosition hc) ?_
    rintro position _ rfl
    split
    · exact mirrors_takeJump hc h jump
    · exact mirrors_visit hc hw hp h

omit hc hw in
/-- With a halted response a walk ends at its first step. -/
theorem ne_goto_of_halted {s t : Session ω} {next : Next ω} (hs : s.response.halted = true)
    (hj : cur.jump = none) (hstep : c.step data cur s = .ok (next, t)) (cur₁ : Cursor ω) :
    next ≠ .goto cur₁ := by
  rintro rfl
  rw [step_of_none hj] at hstep
  by_cases hlt : cur.marker < c.exit.marker
  · rw [visit, if_pos hlt] at hstep
    obtain ⟨m, s₀, hmarker, hrest⟩ := ok_of_bind hstep
    obtain ⟨-, rfl⟩ := marker_eq_ok.mp hmarker
    rw [← bind_assoc] at hrest
    obtain ⟨cur₂, s₂, hrun, hend⟩ := ok_of_bind hrest
    obtain ⟨-, -, -, rfl⟩ := Template.passTags_eq_wrote hrun
    rw [isHalted_bind, Template.halted_wrote, hs] at hend
    cases hend
  · rw [visit_of_ge (Nat.le_of_not_lt hlt)] at hstep
    obtain ⟨cur₂, s₂, hrun, hend⟩ := ok_of_bind hstep
    obtain ⟨-, -, -, rfl⟩ := Template.advance_eq_wrote hrun
    rw [isHalted_bind, Template.halted_wrote, hs] at hend
    cases hend

/-- Walks that go on from the same place end alike. With a halted response nothing but the first
step is to be compared. -/
theorem endsAlike_loop {s' : Session ω'} {s : Session ω} (hs : s'.Mirrors r s)
    (hstart : s.response.halted = true → cur.jump = none) (hp : c.Placed cur)
    (h : cur.Shares r c.maxNesting stack') :
    EndsAlike r (EndsClear r) (c'.loop data (cur.onStack stack') s') (c.loop data cur s) := by
  induction hn : c.remaining cur using Nat.strongRecOn generalizing cur stack' s' s with
  | _ n ih =>
    subst hn
    rw [loop, loop]
    refine endsAlike_bind (mirrors_step hc hw hp h s' s hs) ?_
    intro next' next t' t hstep hnext ht
    cases hnext with
    | stop hend => exact .result hend ht
    | @goto cur₁ stack₁' h₁ =>
      have hrunning : s.response.halted = false := by
        by_contra hne
        exact ne_goto_of_halted (by simpa using hne) (hstart (by simpa using hne)) hstep cur₁ rfl
      have htrans := transition_of_step hrunning hstep
      have hhalted : t.response.halted = false := htrans.reports hrunning
      have hremaining : c'.remaining (cur₁.onStack stack₁') = c.remaining cur₁ ∧
          c'.remaining (cur.onStack stack') = c.remaining cur := by
        simp only [remaining, hc.exit_eq]
        exact ⟨rfl, rfl⟩
      simp only [hremaining.1, hremaining.2]
      split
      · next hlt =>
        exact ih _ hlt ht (fun hht => by cases hhalted.symm.trans hht) (htrans.placed hw hp) h₁ rfl
      · exact .fault _

variable {place : Place}

/-- Two walks from the same place, with clear stacks that are deep enough. -/
theorem mirrors_walk {stack : EndingStack (Ending ω)} (hp : c.Placed (c.cursorAt place stack))
    (h' : stack'.Ready c.maxNesting) (h : stack.Ready c.maxNesting) :
    Render.Mirrors r (c'.walk data place stack') (c.walk data place stack) (EndsClear r) := by
  intro s' s hs
  have hcursor : c'.cursorAt place stack' = (c.cursorAt place stack).onStack stack' := by
    rw [cursorAt, hc.template.elements_eq]
    rfl
  have hshares : (c.cursorAt place stack).Shares r c.maxNesting stack' :=
    ⟨⟨[], [], ⟨rfl, _, h'.frames_eq⟩, ⟨rfl, _, h.frames_eq⟩, .nil⟩, h'.depth_le, h.depth_le⟩
  rw [walk, walk, hcursor]
  exact endsAlike_loop hc hw hs (fun _ => rfl) hp hshares

end Walks

end Component

/-! ## 5. A single world -/

theorem Outcome.mirrors_eq {outcome' outcome : Outcome ω} (h : outcome'.Mirrors (· = ·) outcome) :
    outcome' = outcome := by
  cases h with
  | halted => rfl
  | finished hcarried => rw [endingsMirror_eq_iff.mp hcarried]
  | swallowed resume hcarried => rw [endingsMirror_eq_iff.mp hcarried]

namespace Component

/-- From the place on, the walk does the same on any two stacks that are clear and deep enough: it
ends in the same fault, or it has the same outcome, the same response, and calls that leave the
same world. And it leaves the stack clear, unless the response is halted. -/
structure WalksAlike (c : Component ω δ) (data : δ) (place : Place) : Prop where
  same {stack₁ stack₂ : EndingStack (Ending ω)} : stack₁.Ready c.maxNesting →
    stack₂.Ready c.maxNesting →
    Prod.fst <$> c.walk data place stack₁ = Prod.fst <$> c.walk data place stack₂
  isClear {stack stack₁ : EndingStack (Ending ω)} {s s₁ : Session ω} {outcome : Outcome ω} :
    stack.Ready c.maxNesting → c.walk data place stack s = .ok ((outcome, stack₁), s₁) →
    outcome ≠ .halted → stack₁.isClear = true

theorem walksAlike {c : Component ω δ} {data : δ} {content? : Option Place} {place : Place}
    (hw : c.WellFormed content?) (hp : c.Placed (c.cursorAt place {})) :
    c.WalksAlike data place := by
  have hsame := c.matches_refl Callback.mirrors_self
  have hwalk : ∀ stack₁ stack₂, stack₁.Ready c.maxNesting → stack₂.Ready c.maxNesting →
      Render.Mirrors (· = ·) (c.walk data place stack₁) (c.walk data place stack₂)
        (EndsClear (· = ·)) := by
    intro stack₁ stack₂ h₁ h₂
    have hp₂ : c.Placed (c.cursorAt place stack₂) := hp
    exact mirrors_walk hsame hw hp₂ h₁ h₂
  constructor
  · intro stack₁ stack₂ h₁ h₂
    refine mirrors_eq_iff.mp ?_
    exact mirrors_bind (hwalk stack₁ stack₂ h₁ h₂) fun _ _ hend =>
      mirrors_pure (Outcome.mirrors_eq hend.outcome)
  · intro stack stack₁ s s₁ outcome h hrun hne
    have hends := hwalk stack stack h h s s (Session.mirrors_eq_iff.mpr rfl)
    rw [hrun] at hends
    cases hends with
    | result hend _ => exact (hend.isClear hne).2

end Component

end HtmlTemplate
