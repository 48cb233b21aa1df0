import HtmlTemplate.Proofs.Rendering.Places

/-!
# Walks go forward

A walk may begin at the entry of a component or be resumed further on. From whatever place it
begins, each step leads to a place of the component again, and never back: neither among the
markers nor in the literal bytes. What has been left behind is not rendered any more.

Results:
1. `Transition.placed`: the cursor stands in the component after each step.
2. `Cursor.Before`, `Transition.before`, `Arrives.before_of_transition`: and further on.
   `Transition.remaining_lt`: with fewer steps to go.
3. `Reaches.placed`, `Reaches.before`: walks of any length.
-/

namespace HtmlTemplate

open Render

variable {ω δ : Type}

/-- Neither the marker nor the offset of the second cursor lies before that of the first. -/
structure Cursor.Before (cur cur' : Cursor ω) : Prop where
  marker_le : cur.marker ≤ cur'.marker
  offset_le : cur.offset ≤ cur'.offset

namespace Cursor.Before

variable {cur cur₁ cur' : Cursor ω}

theorem refl (cur : Cursor ω) : cur.Before cur := ⟨Nat.le_refl _, Nat.le_refl _⟩

/-- Behind a marker. -/
theorem next (cur : Cursor ω) : cur.Before cur.next := ⟨Nat.le_succ _, Nat.le_refl _⟩

theorem trans (h : cur.Before cur₁) (h' : cur₁.Before cur') : cur.Before cur' :=
  ⟨Nat.le_trans h.marker_le h'.marker_le, Nat.le_trans h.offset_le h'.offset_le⟩

end Cursor.Before

namespace Component

variable {c : Component ω δ} {data : δ} {cur₀ cur cur₁ cur' : Cursor ω} {s₀ s s₁ s' : Session ω}
  {m : Marker ω δ} {content? : Option Place} {place : Place} {index : Nat} {e : Element}

/-! ## 1. Steps -/

theorem CallsInTag.placed_behindTag {scope : AttributeScope}
    (h : c.CallsInTag data cur s index e cur₁ scope s') (hw : c.WellFormed content?)
    (hp : c.Placed cur) : c.Placed (c.behindTag cur₁ e scope) := by
  obtain ⟨ha, hm, he, -⟩ := h
  have hstands := ha.stands hw hp
  unfold behindTag
  split
  · rw [Placed, ← planJump_withStack]
    exact hstands.holds_planJump hw hm he
  · exact hstands.holds_next_inner hw (Marker.boundsWrapper_of_attributes hm)

/-- The cursor stands in the component after a step. -/
theorem Transition.placed (h : c.Transition data cur s (.goto cur') s')
    (hw : c.WellFormed content?) (hp : c.Placed cur) : c.Placed cur' := by
  generalize hn : Next.goto cur' = next at h
  cases h with
  | jumpOut | elementOut | contentOut | finish => cases hn
  | jump hj hk =>
    cases hn
    obtain ⟨rfl, -⟩ := Template.advance_eq_ok hj.run_eq
    obtain ⟨index, e, hin, -, rfl⟩ := hp.jump _ hj.jump_eq
    have hout : ¬c.DropsContent e := by simpa [jumpOver, DropsContent] using hk
    exact hin.holds_moveTo hw hp hout (hw.closed index e hin.element).closeStart_le
  | plain ha hm =>
    obtain ⟨rfl, -⟩ := settled_eq_goto hn.symm
    exact (ha.stands hw hp).holds_next_inner hw (Marker.boundsWrapper_of_plain hm)
  | inTag hcalls =>
    obtain ⟨rfl, -⟩ := settled_eq_goto hn.symm
    exact hcalls.placed_behindTag hw hp
  | dropElement hcalls _ _ _ hc =>
    cases hn
    obtain ⟨ha, hm, he, -⟩ := hcalls
    have hstands := ha.stands hw hp
    obtain ⟨hin, -, -⟩ := hstands.inTag hw hm he
    exact hin.holds_moveTo hw hstands.toHolds hc (Nat.le_refl _)
  | wrapperStart hcalls =>
    obtain ⟨rfl, -⟩ := settled_eq_goto hn.symm
    obtain ⟨ha, hm, -, -⟩ := hcalls
    exact (ha.stands hw hp).holds_enter hw hm (.ofDepth c.maxNesting)
  | dropContent hcalls _ _ hmarker hlt =>
    obtain ⟨rfl, -⟩ := settled_eq_goto hn.symm
    obtain ⟨hna, -, hstands⟩ := hcalls.stands_end hw hp hmarker
    exact ((hstands hlt).holds_leave hw hna hp.entry_le rfl).placed
  | wrapperEnd ha hm hle hd =>
    obtain ⟨rfl, -⟩ := settled_eq_goto hn.symm
    exact ((ha.stands hw hp).holds_leave hw hm hle hd).placed
  | endBefore ha hm hlt =>
    cases hn
    exact (ha.stands hw hp).holds_next_of_end hw hm (Nat.not_le_of_lt hlt)

theorem Arrives.before (h : c.Arrives cur s m cur₁ s₁) : cur.Before cur₁ := by
  obtain ⟨elements, tagMark, rfl⟩ := h.cursor_eq
  exact ⟨Nat.le_refl _, h.offset_le.1⟩

theorem Arrives.marker_lt_next (h : c.Arrives cur s m cur₁ s₁) : cur.marker < cur₁.next.marker :=
  Nat.lt_succ_of_le (Nat.le_of_eq h.marker_cursor.symm)

theorem before_behindTag (cur : Cursor ω) (e : Element) (scope : AttributeScope) :
    cur.Before (c.behindTag cur e scope) := by
  unfold behindTag planJump
  split
  · split <;> exact ⟨Nat.le_succ _, Nat.le_refl _⟩
  · exact ⟨Nat.le_succ _, Nat.le_refl _⟩

/-- A walk that comes to a marker does so in one way. -/
theorem Arrives.unique {m' : Marker ω δ} {cur₁' : Cursor ω} {s₁' : Session ω}
    (h : c.Arrives cur s m cur₁ s₁) (h' : c.Arrives cur s m' cur₁' s₁') :
    m' = m ∧ cur₁' = cur₁ ∧ s₁' = s₁ := by
  cases h.marker_eq.symm.trans h'.marker_eq
  cases h.run_eq.symm.trans h'.run_eq
  exact ⟨rfl, rfl, rfl⟩

/-- A walk that comes to a marker does not jump there. -/
theorem Arrives.not_jumps {jump : Jump} {cur₁' : Cursor ω} {s₁' : Session ω}
    (h : c.Arrives cur s m cur₁ s₁) : ¬c.Jumps cur s jump cur₁' s₁' := by
  intro hj
  obtain ⟨position, hnext, hle⟩ := hj.ahead
  have hposition := (nextPosition_eq_ok.mp hnext).2
  rw [if_pos h.marker_lt] at hposition
  obtain ⟨n, hn, rfl⟩ := hposition
  cases h.marker_eq.symm.trans hn
  exact Nat.not_lt_of_le hle (h.before_jump jump hj.jump_eq)

/-- A step jumps, or comes to a marker and leads on from there, behind that marker. -/
theorem Transition.further (h : c.Transition data cur s (.goto cur') s')
    (hw : c.WellFormed content?) (hp : c.Placed cur) :
    (cur.Before cur' ∧ cur'.jump = none ∧ ∃ jump cur₁ s₁, c.Jumps cur s jump cur₁ s₁) ∨
      ∃ m cur₁ s₁, c.Arrives cur s m cur₁ s₁ ∧ cur₁.Before cur' ∧ cur.marker < cur'.marker := by
  generalize hn : Next.goto cur' = next at h
  cases h with
  | jumpOut | elementOut | contentOut | finish => cases hn
  | jump hj =>
    cases hn
    obtain ⟨index, e, hin, hend, rfl⟩ := hp.jump _ hj.jump_eq
    have hclosed := hw.closed index e hin.element
    exact .inl ⟨⟨Nat.le_trans hin.marker_le hclosed.inner_le_next,
      Nat.le_trans hend hclosed.openEnd_le⟩, rfl, _, _, _, hj⟩
  | plain ha =>
    obtain ⟨rfl, -⟩ := settled_eq_goto hn.symm
    exact .inr ⟨_, _, _, ha, .next _, ha.marker_lt_next⟩
  | inTag hcalls =>
    obtain ⟨rfl, -⟩ := settled_eq_goto hn.symm
    obtain ⟨ha, -, -, -⟩ := hcalls
    exact .inr ⟨_, _, _, ha, before_behindTag _ _ _,
      marker_behindTag (c := c) _ ▸ ha.marker_lt_next⟩
  | dropElement hcalls =>
    cases hn
    obtain ⟨ha, hm, he, -⟩ := hcalls
    obtain ⟨hin, hend, hlt⟩ := (ha.stands hw hp).inTag hw hm he
    have hclosed := hw.closed _ _ he
    exact .inr ⟨_, _, _, ha, ⟨Nat.le_trans hin.marker_le hclosed.inner_le_next,
      Nat.le_trans hend (Nat.le_trans hclosed.openEnd_le hclosed.closeStart_le)⟩,
      ha.marker_cursor ▸ Nat.lt_of_lt_of_le hlt hclosed.inner_le_next⟩
  | wrapperStart hcalls =>
    obtain ⟨rfl, -⟩ := settled_eq_goto hn.symm
    obtain ⟨ha, -, -, -⟩ := hcalls
    exact .inr ⟨_, _, _, ha, ⟨Nat.le_succ _, Nat.le_refl _⟩,
      ha.marker_lt_next⟩
  | dropContent hcalls _ _ hmarker =>
    obtain ⟨rfl, -⟩ := settled_eq_goto hn.symm
    obtain ⟨-, hopen, -⟩ := hcalls.stands_end hw hp hmarker
    have hlt := lt_of_mem_openBefore (hopen ▸ List.mem_cons_self)
    obtain ⟨ha, -, -, -⟩ := hcalls
    have hle := hw.ordered.position_mono _ _ _ _ (Nat.le_of_lt hlt) ha.marker_eq hmarker
    obtain ⟨elements, tagMark, rfl⟩ := ha.cursor_eq
    exact .inr ⟨_, _, _, ha, ⟨Nat.le_succ_of_le (Nat.le_of_lt hlt), hle⟩,
      Nat.lt_succ_of_lt hlt⟩
  | wrapperEnd ha =>
    obtain ⟨rfl, -⟩ := settled_eq_goto hn.symm
    exact .inr ⟨_, _, _, ha, ⟨Nat.le_succ _, Nat.le_refl _⟩,
      ha.marker_lt_next⟩
  | endBefore ha =>
    cases hn
    exact .inr ⟨_, _, _, ha, .next _, ha.marker_lt_next⟩

/-- A step leads further on. -/
theorem Transition.before (h : c.Transition data cur s (.goto cur') s')
    (hw : c.WellFormed content?) (hp : c.Placed cur) : cur.Before cur' := by
  rcases h.further hw hp with ⟨hb, -⟩ | ⟨m, cur₁, s₁, ha, hb, -⟩
  · exact hb
  · exact ha.before.trans hb

/-- And there are fewer steps to go. -/
theorem Transition.remaining_lt (h : c.Transition data cur s (.goto cur') s')
    (hw : c.WellFormed content?) (hp : c.Placed cur) : c.remaining cur' < c.remaining cur := by
  rcases h.further hw hp with ⟨hb, hnone, jump, cur₁, s₁, hj⟩ | ⟨m, cur₁, s₁, ha, -, hlt⟩
  · exact remaining_lt_of_jump (by simp [hj.jump_eq]) hnone hb.marker_le
  · exact Component.remaining_lt ha.marker_lt hlt

/-- A step that comes to a marker leads on from there, behind that marker. -/
theorem Arrives.before_of_transition (ha : c.Arrives cur s m cur₁ s₁)
    (h : c.Transition data cur s (.goto cur') s') (hw : c.WellFormed content?)
    (hp : c.Placed cur) : cur₁.Before cur' ∧ cur.marker < cur'.marker := by
  rcases h.further hw hp with ⟨-, -, jump, cur₂, s₂, hj⟩ | ⟨m', cur₂, s₂, ha', hb⟩
  · exact absurd hj ha.not_jumps
  · obtain ⟨-, rfl, -⟩ := ha.unique ha'
    exact hb

/-! ## 2. Walks -/

/-- The cursor at a place where no wrapper is open that was opened in the component. -/
theorem placed_cursorAt {stack : EndingStack (Ending ω)} (hcuts : c.template.Cuts place)
    (hentry : c.entry.marker ≤ place.marker) (hmarker : place.marker ≤ c.exit.marker)
    (hoffset : place.offset ≤ c.exit.offset) (hopened : c.opened place.marker = []) :
    c.Placed (c.cursorAt place stack) :=
  holds_cursorAt hcuts hentry hmarker hoffset hopened

theorem placed_cursorAt_entry (hw : c.WellFormed content?) (stack : EndingStack (Ending ω)) :
    c.Placed (c.cursorAt c.entry stack) :=
  holds_cursorAt_entry hw

theorem Reaches.placed (h : c.Reaches data cur₀ s₀ cur s) (hs₀ : s₀.response.halted = false)
    (hw : c.WellFormed content?) (hp : c.Placed cur₀) : c.Placed cur :=
  (h.invariant (fun cur _ => c.Placed cur) hs₀ hp fun _ _ _ _ _ _ hp htrans =>
    htrans.placed hw hp).2

/-- Whatever is rendered later lies behind. -/
theorem Reaches.before (h : c.Reaches data cur₀ s₀ cur s) (hs₀ : s₀.response.halted = false)
    (hw : c.WellFormed content?) (hp : c.Placed cur₀) : cur₀.Before cur := by
  refine (h.invariant (fun cur _ => cur₀.Before cur) hs₀ (.refl cur₀) ?_).2
  intro cur s cur' s' hreach _ hb htrans
  exact hb.trans (htrans.before hw (hreach.placed hs₀ hw hp))

end Component

end HtmlTemplate
