import Mathlib.Data.List.Forall2
import HtmlTemplate.Proofs.Rendering.Safety
import HtmlTemplate.Proofs.Rendering.Traces

/-!
# The places of a walk

Where a walk over a part of a well-formed template stands, and which endings are on its
stack, is known for all callbacks, whatever they do: callbacks decide which way a walk
takes, but each of its ways leads from one place of the component to another.

Results:
1. `Component.Visits`, `Component.Registers`: the cursors that a walk comes to, and the
   endings that the callbacks of its wrapper starts register.
2. `Component.Tracked`: what is known of a cursor that is visited (`Visits.tracked`). The
   endings on the stack are those registered for the wrappers that are open.
3. `Visits.loop_eq`: the walk goes on from each cursor that it visits.
-/

namespace HtmlTemplate

open Render

variable {ω δ : Type}

theorem Marker.boundsWrapper_of_plain {m : Marker ω δ} {run : δ → Render ω Unit}
    (h : m.action = .plain run) : m.boundsWrapper = false := by
  simp [boundsWrapper, h]

theorem Marker.boundsWrapper_of_attributes {m : Marker ω δ} {run : δ → AttributeRender ω Unit}
    {index : Nat} (h : m.action = .attributes run index) : m.boundsWrapper = false := by
  simp [boundsWrapper, h]

namespace Component

variable {c : Component ω δ} {data : δ} {cur cur₁ cur' : Cursor ω} {s₀ s s₁ s' : Session ω}
  {next : Next ω} {m : Marker ω δ} {content? : Option Place}

/-! ## 1. Cursors that are visited -/

/-- The walk over the component that starts with the session `s₀` comes to the cursor. -/
def Visits (c : Component ω δ) (data : δ) (s₀ : Session ω) (cur : Cursor ω) (s : Session ω) :
    Prop :=
  s₀.response.halted = false ∧
    c.Reaches data (c.cursorAt c.entry (EndingStack.ofDepth c.maxNesting)) s₀ cur s

/-- The walk runs the callback of the wrapper start with the index `i`, and that registers
the endings, the last one first. -/
inductive Registers (c : Component ω δ) (data : δ) (s₀ : Session ω) :
    Nat → List (Ending ω) → Prop
  | intro {cur cur₁ : Cursor ω} {s s₁ s' : Session ω} {m : Marker ω δ}
      {run : δ → WrapperRender ω Unit} {closing? : Option Nat} {scope : WrapperScope ω} :
      c.Visits data s₀ cur s → c.Arrives cur s m cur₁ s₁ →
      m.action = .wrapperStart run closing? → (run data).run {} s₁ = .ok (((), scope), s') →
      Registers c data s₀ cur.marker scope.endings

/-- What is known of a cursor but for its stack. -/
def Placed (c : Component ω δ) (cur : Cursor ω) : Prop :=
  c.Holds { cur with stack := EndingStack.ofDepth c.maxNesting }

/-- What is known of a cursor that is visited: where it stands, and that the frames in use
are those of the open wrappers, with the endings that their callbacks have registered. -/
structure Tracked (c : Component ω δ) (data : δ) (s₀ : Session ω) (cur : Cursor ω) : Prop where
  placed : c.Placed cur
  frames : ∃ frames, cur.Holding frames ∧
    List.Forall₂ (c.Registers data s₀) (c.opened cur.marker) frames

/-- What is known after a step from the cursor. -/
def Onward (c : Component ω δ) (data : δ) (s₀ : Session ω) (cur : Cursor ω) : Next ω → Prop
  | .goto cur' => c.Tracked data s₀ cur' ∧ c.remaining cur' < c.remaining cur
  | .stop _ _ => True

theorem Holds.placed (h : c.Holds cur) : c.Placed cur :=
  { h with stack := .ofDepth c.maxNesting }

theorem planJump_withStack (cur : Cursor ω) (e : Element) (stack : EndingStack (Ending ω)) :
    c.planJump { cur with stack := stack } e = { c.planJump cur e with stack := stack } := by
  unfold planJump
  split <;> rfl

theorem onward_settled (h : c.Tracked data s₀ cur') (hr : c.remaining cur' < c.remaining cur) :
    c.Onward data s₀ cur (settled cur' s) := by
  unfold settled
  split
  · trivial
  · exact ⟨h, hr⟩

/-! ## 2. Transitions -/

theorem Arrives.marker_cursor (h : c.Arrives cur s m cur₁ s₁) : cur₁.marker = cur.marker := by
  obtain ⟨elements, tagMark, rfl⟩ := h.cursor_eq
  rfl

theorem Arrives.offset_cursor (h : c.Arrives cur s m cur₁ s₁) : cur₁.offset = m.position := by
  obtain ⟨elements, tagMark, rfl⟩ := h.cursor_eq
  rfl

theorem Arrives.stack_cursor (h : c.Arrives cur s m cur₁ s₁) : cur₁.stack = cur.stack := by
  obtain ⟨elements, tagMark, rfl⟩ := h.cursor_eq
  rfl

/-- The cursor at a marker, whatever endings are on its stack. -/
theorem Arrives.stands (h : c.Arrives cur s m cur₁ s₁) (hw : c.WellFormed content?)
    (hp : c.Placed cur) :
    c.Stands { cur₁ with stack := EndingStack.ofDepth c.maxNesting } m := by
  obtain ⟨elements, tagMark, rfl⟩ := h.cursor_eq
  exact Holds.stands hw hp h.marker_lt h.marker_eq h.before_jump elements tagMark

theorem Arrives.frames (h : c.Arrives cur s m cur₁ s₁) (ht : c.Tracked data s₀ cur) :
    ∃ frames, cur₁.Holding frames ∧
      List.Forall₂ (c.Registers data s₀) (c.opened cur₁.marker) frames := by
  obtain ⟨frames, hf, hr⟩ := ht.frames
  exact ⟨frames, h.holding hf, h.marker_cursor ▸ hr⟩

theorem Arrives.remaining_lt (h : c.Arrives cur s m cur₁ s₁) (hm : cur₁.marker < cur'.marker) :
    c.remaining cur' < c.remaining cur :=
  Component.remaining_lt h.marker_lt (h.marker_cursor ▸ hm)

/-- Behind a marker that neither starts nor ends a wrapper. -/
theorem Arrives.tracked_next (h : c.Arrives cur s m cur₁ s₁) (hw : c.WellFormed content?)
    (ht : c.Tracked data s₀ cur) (hb : m.boundsWrapper = false) :
    c.Tracked data s₀ cur₁.next := by
  have hstands := h.stands hw ht.placed
  obtain ⟨frames, hf, hr⟩ := h.frames ht
  refine ⟨hstands.holds_next_inner hw hb, frames, hf.next, ?_⟩
  show List.Forall₂ _ (c.opened (cur₁.marker + 1)) frames
  rwa [opened_succ_of_not_boundsWrapper hstands.marker_eq hb]

theorem CallsAtStart.registers {closing? : Option Nat} {scope : WrapperScope ω}
    (h : c.CallsAtStart data cur s closing? cur₁ scope s') (hv : c.Visits data s₀ cur s)
    (ht : c.Tracked data s₀ cur) : c.Registers data s₀ cur.marker scope.endings := by
  obtain ⟨ha, hm, hframe, hrun⟩ := h
  obtain ⟨frames, hf, -⟩ := ht.frames
  -- The frame for the next wrapper holds no ending.
  obtain rfl := (ha.holding hf).frame_eq_nil hframe
  exact .intro hv ha hm hrun

/-- The frames inside of the wrapper that has been opened. -/
theorem CallsAtStart.frames {closing? : Option Nat} {scope : WrapperScope ω}
    (h : c.CallsAtStart data cur s closing? cur₁ scope s') (hw : c.WellFormed content?)
    (hv : c.Visits data s₀ cur s) (ht : c.Tracked data s₀ cur) :
    ∃ frames, (cur₁.enter scope.endings).Holding frames ∧
      List.Forall₂ (c.Registers data s₀) (c.opened (cur.marker + 1)) frames := by
  have hreg := h.registers hv ht
  obtain ⟨ha, hm, hframe, -⟩ := h
  have hstands := ha.stands hw ht.placed
  obtain ⟨frames, hf, hr⟩ := ht.frames
  refine ⟨scope.endings :: frames, (ha.holding hf).enter hframe _, ?_⟩
  rw [opened_succ_of_start ht.placed.entry_le ha.marker_eq hm]
  exact .cons hreg hr

/-- The place at the end of the wrapper that has been opened. -/
theorem CallsAtStart.stands_end {index : Nat} {scope : WrapperScope ω} {n : Marker ω δ}
    (h : c.CallsAtStart data cur s (some index) cur₁ scope s') (hw : c.WellFormed content?)
    (hp : c.Placed cur) (hn : c.template.markers[index]? = some n) :
    n.action = .wrapperEnd cur.marker ∧
      openBefore c.template.markers index =
        cur.marker :: openBefore c.template.markers cur.marker ∧
      (index < c.exit.marker → c.Stands { cur₁.enter scope.endings with
        marker := index
        offset := n.position
        stack := EndingStack.ofDepth c.maxNesting } n) := by
  obtain ⟨ha, hm, -, -⟩ := h
  have hstands := ha.stands hw hp
  obtain ⟨j, n', hj, hn', hna, hopen⟩ := hw.exists_end ha.marker_eq hm
  cases hj
  cases hn.symm.trans hn'
  refine ⟨hna, hopen, fun hlt => ?_⟩
  rw [← ha.marker_cursor] at hopen
  exact hstands.stands_end hw hm (.ofDepth c.maxNesting) hn hopen hlt

/-- A jump leads to the end tag of an element. -/
theorem Jumps.onward {jump : Jump} (h : c.Jumps cur s jump cur₁ s₁) (hw : c.WellFormed content?)
    (ht : c.Tracked data s₀ cur) (hk : jump.swallows = false) :
    c.Onward data s₀ cur (.goto (cur₁.moveTo jump.target)) := by
  obtain ⟨rfl, -⟩ := Template.advance_eq_ok h.run_eq
  obtain ⟨index, e, hin, -, rfl⟩ := ht.placed.jump _ h.jump_eq
  have hclosed := hw.closed index e hin.element
  have hout : ¬c.DropsContent e := by simpa [jumpOver, DropsContent] using hk
  obtain ⟨frames, hf, hr⟩ := ht.frames
  refine ⟨⟨hin.holds_moveTo hw ht.placed hout hclosed.closeStart_le, frames, hf.congr rfl rfl, ?_⟩,
    remaining_lt_of_jump (by simp [h.jump_eq]) rfl
      (Nat.le_trans hin.marker_le hclosed.inner_le_next)⟩
  rw [← opened_congr (hin.openBefore_nextMarker hw ht.placed)] at hr
  exact hr

theorem marker_behindTag {e : Element} (scope : AttributeScope) :
    (c.behindTag cur e scope).marker = cur.marker + 1 := by
  unfold behindTag
  split
  · exact marker_planJump cur e
  · rfl

/-- Behind an attribute marker. -/
theorem CallsInTag.tracked_behindTag {index : Nat} {e : Element} {scope : AttributeScope}
    (h : c.CallsInTag data cur s index e cur₁ scope s') (hw : c.WellFormed content?)
    (ht : c.Tracked data s₀ cur) : c.Tracked data s₀ (c.behindTag cur₁ e scope) := by
  obtain ⟨ha, hm, he, -⟩ := h
  have hstands := ha.stands hw ht.placed
  obtain ⟨hplaced, frames, hf, hr⟩ :=
    ha.tracked_next hw ht (Marker.boundsWrapper_of_attributes hm)
  refine ⟨?_, frames, hf.congr (depth_behindTag scope) (stack_behindTag scope), ?_⟩
  · unfold behindTag
    split
    · rw [Placed, ← planJump_withStack]
      exact hstands.holds_planJump hw hm he
    · exact hplaced
  · rw [marker_behindTag]
    exact hr

/-- Behind an element that has been dropped. -/
theorem CallsInTag.onward_behind {index : Nat} {e : Element} {scope : AttributeScope}
    (h : c.CallsInTag data cur s index e cur₁ scope s') (hw : c.WellFormed content?)
    (ht : c.Tracked data s₀ cur) (hc : ¬c.DropsContent e) :
    c.Onward data s₀ cur
      (.goto (cur₁.moveTo { marker := e.nextMarker, offset := e.closeEnd })) := by
  obtain ⟨ha, hm, he, -⟩ := h
  have hstands := ha.stands hw ht.placed
  obtain ⟨hin, -, hlt⟩ := hstands.inTag hw hm he
  have hclosed := hw.closed _ _ he
  obtain ⟨frames, hf, hr⟩ := ha.frames ht
  refine ⟨⟨hin.holds_moveTo hw hstands.toHolds hc (Nat.le_refl _), frames, hf.moveTo _, ?_⟩,
    ha.remaining_lt (Nat.lt_of_lt_of_le hlt hclosed.inner_le_next)⟩
  rw [← opened_congr (hin.openBefore_nextMarker hw hstands.toHolds)] at hr
  exact hr

/-- Behind the end of a wrapper whose content has been dropped. -/
theorem CallsAtStart.tracked_behind {index : Nat} {scope : WrapperScope ω} {n : Marker ω δ}
    (h : c.CallsAtStart data cur s (some index) cur₁ scope s') (hw : c.WellFormed content?)
    (hv : c.Visits data s₀ cur s) (ht : c.Tracked data s₀ cur)
    (hn : c.template.markers[index]? = some n) (hlt : index < c.exit.marker) :
    c.Tracked data s₀ (({ cur₁.enter scope.endings with
      marker := index, offset := n.position }).leave cur₁.depth) := by
  obtain ⟨hna, hopen, hstands⟩ := h.stands_end hw ht.placed hn
  have hend := hstands hlt
  obtain ⟨frames, hf, hr⟩ := h.frames hw hv ht
  have hopened : c.opened (cur.marker + 1) = c.opened index := by
    obtain ⟨ha, hm, -, -⟩ := h
    rw [opened_succ_of_start ht.placed.entry_le ha.marker_eq hm,
      opened_cons ht.placed.entry_le hopen]
    rfl
  rw [hopened, show c.opened index = _ from hend.opened_of_end hw hna ht.placed.entry_le] at hr
  cases hr with
  | @cons _ endings _ rest hreg hr =>
    have hf' : Cursor.Holding { cur₁.enter scope.endings with
        marker := index
        offset := n.position } (endings :: rest) := hf.congr rfl rfl
    exact ⟨(hend.holds_leave hw hna ht.placed.entry_le rfl).placed, rest, hf'.leave rfl, hr⟩

/-- Behind the end of a wrapper. -/
theorem Arrives.tracked_leave {opening depth : Nat} (h : c.Arrives cur s m cur₁ s₁)
    (hw : c.WellFormed content?) (ht : c.Tracked data s₀ cur) (hm : m.action = .wrapperEnd opening)
    (hle : c.entry.marker ≤ opening) (hd : cur₁.depth = depth + 1) :
    c.Tracked data s₀ (cur₁.leave depth) := by
  have hstands := h.stands hw ht.placed
  obtain ⟨frames, hf, hr⟩ := h.frames ht
  rw [show c.opened cur₁.marker = _ from hstands.opened_of_end hw hm hle] at hr
  cases hr with
  | cons hreg hr => exact ⟨(hstands.holds_leave hw hm hle hd).placed, _, hf.leave hd, hr⟩

/-- A transition leads to a cursor of which the same is known, and further on. -/
theorem Transition.onward (h : c.Transition data cur s next s') (hw : c.WellFormed content?)
    (hv : c.Visits data s₀ cur s) (ht : c.Tracked data s₀ cur) : c.Onward data s₀ cur next := by
  cases h with
  | jumpOut | elementOut | contentOut | finish => trivial
  | jump hj hk => exact hj.onward hw ht hk
  | plain ha hm =>
    exact onward_settled (ha.tracked_next hw ht (Marker.boundsWrapper_of_plain hm))
      (ha.remaining_lt (Nat.lt_succ_self _))
  | inTag hcalls =>
    have htracked := hcalls.tracked_behindTag hw ht
    obtain ⟨ha, -, -, -⟩ := hcalls
    exact onward_settled htracked (ha.remaining_lt (marker_behindTag _ ▸ Nat.lt_succ_self _))
  | dropElement hcalls hs₁ hk hcut hc => exact hcalls.onward_behind hw ht hc
  | wrapperStart hcalls =>
    obtain ⟨frames, hf, hr⟩ := hcalls.frames hw hv ht
    obtain ⟨ha, hm, -, -⟩ := hcalls
    have hstands := ha.stands hw ht.placed
    rw [← ha.marker_cursor] at hr
    exact onward_settled ⟨hstands.holds_enter hw hm (.ofDepth c.maxNesting), frames, hf.next, hr⟩
      (ha.remaining_lt (Nat.lt_succ_self _))
  | dropContent hcalls hs₁ hk hn hlt =>
    have htracked := hcalls.tracked_behind hw hv ht hn hlt
    obtain ⟨-, hopen, -⟩ := hcalls.stands_end hw ht.placed hn
    have hbefore : cur.marker < _ := lt_of_mem_openBefore (hopen ▸ List.mem_cons_self)
    obtain ⟨ha, -, -, -⟩ := hcalls
    exact onward_settled htracked (remaining_lt ha.marker_lt (Nat.lt_succ_of_lt hbefore))
  | wrapperEnd ha hm hle hd =>
    exact onward_settled (ha.tracked_leave hw ht hm hle hd) (ha.remaining_lt (Nat.lt_succ_self _))
  | endBefore ha hm hlt =>
    have hstands := ha.stands hw ht.placed
    obtain ⟨frames, hf, hr⟩ := ha.frames ht
    have hopened := hw.opened_of_end hstands.marker_eq hm
    rw [if_neg (Nat.not_le_of_lt hlt)] at hopened
    rw [← hopened] at hr
    exact ⟨⟨hstands.holds_next_of_end hw hm (Nat.not_le_of_lt hlt), frames, hf.next, hr⟩,
      ha.remaining_lt (Nat.lt_succ_self _)⟩

/-! ## 3. Walks -/

theorem Visits.running (h : c.Visits data s₀ cur s) : s.response.halted = false :=
  h.2.running h.1

theorem tracked_entry (hw : c.WellFormed content?) (data : δ) (s₀ : Session ω) :
    c.Tracked data s₀ (c.cursorAt c.entry (EndingStack.ofDepth c.maxNesting)) := by
  refine ⟨holds_cursorAt_entry hw, [], ⟨rfl, c.maxNesting, rfl⟩, ?_⟩
  show List.Forall₂ _ (c.opened c.entry.marker) []
  rw [c.opened_entry]
  exact .nil

/-- What is known of every cursor that is visited. -/
theorem Visits.tracked (h : c.Visits data s₀ cur s) (hw : c.WellFormed content?) :
    c.Tracked data s₀ cur := by
  refine (h.2.invariant (fun cur _ => c.Tracked data s₀ cur) h.1
    (tracked_entry hw data s₀) ?_).2
  intro cur s cur' s' hreach _ htracked htrans
  exact (htrans.onward hw ⟨h.1, hreach⟩ htracked).1

/-- The walk goes on from a cursor that it visits. -/
theorem Visits.loop_eq (h : c.Visits data s₀ cur s) (hw : c.WellFormed content?) :
    c.loop data (c.cursorAt c.entry (EndingStack.ofDepth c.maxNesting)) s₀ =
      c.loop data cur s := by
  refine loop_of_reaches h.2 ?_
  intro cur s cur' s' hreach hstep
  have hv : c.Visits data s₀ cur s := ⟨h.1, hreach⟩
  exact ((transition_of_step hv.running hstep).onward hw hv (hv.tracked hw)).2

end Component

end HtmlTemplate
