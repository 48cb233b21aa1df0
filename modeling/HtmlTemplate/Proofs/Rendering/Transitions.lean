import HtmlTemplate.Proofs.Rendering.Frames

/-!
# Transitions

`Component.step` is a program. `Component.Transition` says the same as a relation: from
which cursor a walk goes on to which other one, or ends, and what its callbacks have
returned on the way. What is to be known of the steps of a walk is read off the relation
by cases, and the program is not opened again.

Results:
1. `Session.Wrote`: what happens between two markers.
2. `Arrives`, `Jumps`, `Exits`: what a step comes to.
3. `transition_of_step`, `Transition.step_eq`: the steps that return are the transitions.
-/

namespace HtmlTemplate

open Render

variable {ω δ : Type}

/-! ## 1. Looking up -/

theorem Template.marker_eq_elim (t : Template ω δ) (index : Nat) :
    t.marker index = t.markers[index]?.elim (throw (.noMarker index)) pure := by
  unfold marker
  cases t.markers[index]? <;> rfl

theorem Template.element_eq_elim (t : Template ω δ) (index : Nat) :
    t.element index = t.elements[index]?.elim (throw (.noElement index)) pure := by
  unfold element
  cases t.elements[index]? <;> rfl

theorem Cursor.frame_eq_elim (cur : Cursor ω) (depth : Nat) :
    cur.frame depth = (cur.stack.frame? depth).elim (throw (.noFrame depth)) pure := by
  unfold frame
  cases cur.stack.frame? depth <;> rfl

/-- What is looked up is there, and nothing else happens. -/
theorem elim_eq_ok {α : Type} {found : Option α} {fault : Fault} {a : α} {s s' : Session ω} :
    (found.elim (throw fault) pure : Render ω α) s = .ok (a, s') ↔ found = some a ∧ s' = s := by
  cases found with
  | none =>
    constructor
    · rintro ⟨⟩
    · rintro ⟨⟨⟩, -⟩
  | some b =>
    constructor
    · rintro ⟨⟩
      exact ⟨rfl, rfl⟩
    · rintro ⟨⟨⟩, rfl⟩
      rfl

/-! ## 2. Literal bytes -/

/-- Nothing has happened in between but that bytes were written. -/
def Session.Wrote (s s' : Session ω) : Prop :=
  ∃ bytes, s' = { s with response := s.response.writeRawBytes bytes }

namespace Session.Wrote

variable {s s' : Session ω}

theorem halted_eq (h : s.Wrote s') : s'.response.halted = s.response.halted := by
  obtain ⟨bytes, rfl⟩ := h
  exact Response.halted_writeRawBytes _ _

end Session.Wrote

namespace Template

variable {t : Template ω δ} {cur cur' : Cursor ω} {s s' : Session ω} {stop : Nat}

/-- The literal bytes up to `stop` are written, which are there. -/
theorem advance_eq_wrote (h : t.advance cur stop s = .ok (cur', s')) :
    cur.offset ≤ stop ∧ stop ≤ t.html.size ∧ cur' = { cur with offset := stop } ∧
      s' = t.wrote cur.offset stop s := by
  obtain ⟨u, s₁, hw, h⟩ := ok_of_bind h
  cases h
  unfold writeLiteral at hw
  split at hw
  · next hle =>
    cases hw
    exact ⟨hle.1, hle.2, rfl, rfl⟩
  · cases hw

theorem advance_eq_ok (h : t.advance cur stop s = .ok (cur', s')) :
    cur' = { cur with offset := stop } ∧ s.Wrote s' := by
  obtain ⟨-, -, hcur, hs⟩ := advance_eq_wrote h
  exact ⟨hcur, _, hs⟩

/-- On the way to `stop` only the elements ahead and the mark of the last start tag
change, and the literal bytes up to `stop` are written. -/
theorem passTags_eq_wrote {es : List Element}
    (h : (do let cur ← t.passTags stop es cur; t.advance cur stop) s = .ok (cur', s')) :
    cur.offset ≤ stop ∧ stop ≤ t.html.size ∧ (∃ elements tagMark,
      cur' = { cur with offset := stop, elements := elements, tagMark := tagMark }) ∧
      s' = t.wrote cur.offset stop s := by
  induction es generalizing cur s with
  | nil =>
    have h : t.advance { cur with elements := [] } stop s = .ok (cur', s') := h
    obtain ⟨hle, hsize, rfl, hw⟩ := advance_eq_wrote h
    exact ⟨hle, hsize, ⟨[], cur.tagMark, rfl⟩, hw⟩
  | cons e rest ih =>
    unfold passTags at h
    split at h
    · split at h
      · rw [bind_assoc] at h
        obtain ⟨cur₁, s₁, hadv, h⟩ := ok_of_bind h
        obtain ⟨hstart, -, rfl, rfl⟩ := advance_eq_wrote hadv
        obtain ⟨hle, hsize, ⟨elements, tagMark, rfl⟩, rfl⟩ := ih h
        exact ⟨Nat.le_trans hstart hle, hsize, ⟨elements, tagMark, rfl⟩,
          t.wrote_wrote hstart hle s⟩
      · exact ih h
    · have h : t.advance { cur with elements := e :: rest } stop s = .ok (cur', s') := h
      obtain ⟨hle, hsize, rfl, hw⟩ := advance_eq_wrote h
      exact ⟨hle, hsize, ⟨e :: rest, cur.tagMark, rfl⟩, hw⟩

end Template

/-! ## 3. What a step comes to -/

namespace Component

variable {c : Component ω δ} {data : δ} {cur cur₁ : Cursor ω} {s s₁ s' : Session ω}
  {next : Next ω} {m : Marker ω δ} {jump : Jump} {e : Element} {resume : Place}

/-- The walk comes to the marker `m`. On the way only literal bytes are written. -/
structure Arrives (c : Component ω δ) (cur : Cursor ω) (s : Session ω) (m : Marker ω δ)
    (cur₁ : Cursor ω) (s₁ : Session ω) : Prop where
  marker_lt : cur.marker < c.exit.marker
  marker_eq : c.template.markers[cur.marker]? = some m
  before_jump : ∀ jump, cur.jump = some jump → m.position < jump.start
  run_eq : (do let cur ← c.template.passTags m.position cur.elements cur
               c.template.advance cur m.position) s = .ok (cur₁, s₁)

/-- The walk comes to the start of the planned jump. -/
structure Jumps (c : Component ω δ) (cur : Cursor ω) (s : Session ω) (jump : Jump)
    (cur₁ : Cursor ω) (s₁ : Session ω) : Prop where
  jump_eq : cur.jump = some jump
  ahead : ∃ position, c.nextPosition cur s = .ok (position, s) ∧ jump.start ≤ position
  run_eq : c.template.advance cur jump.start s = .ok (cur₁, s₁)

/-- The walk comes to the end of the component. -/
structure Exits (c : Component ω δ) (cur : Cursor ω) (s : Session ω) (cur₁ : Cursor ω)
    (s₁ : Session ω) : Prop where
  marker_ge : c.exit.marker ≤ cur.marker
  before_jump : ∀ jump, cur.jump = some jump → c.exit.offset < jump.start
  run_eq : c.template.advance cur c.exit.offset s = .ok (cur₁, s₁)

/-- Endings may be handed to the caller. -/
def HandsOver (c : Component ω δ) (cur : Cursor ω) : Prop :=
  cur.depth = 0 ∨ c.part = .preContent

/-- The walk goes on with the cursor, unless the response is halted. -/
def settled (cur : Cursor ω) (s : Session ω) : Next ω :=
  if s.response.halted then .stop .halted cur.stack else .goto cur

/-- The walk ends, because the content marker has been dropped. -/
def swallowed (cur : Cursor ω) (resume : Place) : Next ω :=
  .stop (.swallowed resume cur.pending) cur.cleared

theorem Arrives.offset_le (h : c.Arrives cur s m cur₁ s₁) :
    cur.offset ≤ m.position ∧ m.position ≤ c.template.html.size :=
  have hpassed := Template.passTags_eq_wrote h.run_eq
  ⟨hpassed.1, hpassed.2.1⟩

theorem Arrives.cursor_eq (h : c.Arrives cur s m cur₁ s₁) : ∃ elements tagMark,
    cur₁ = { cur with offset := m.position, elements := elements, tagMark := tagMark } :=
  (Template.passTags_eq_wrote h.run_eq).2.2.1

theorem Arrives.session_eq (h : c.Arrives cur s m cur₁ s₁) :
    s₁ = c.template.wrote cur.offset m.position s :=
  (Template.passTags_eq_wrote h.run_eq).2.2.2

theorem Arrives.wrote (h : c.Arrives cur s m cur₁ s₁) : s.Wrote s₁ :=
  ⟨_, h.session_eq⟩

theorem Arrives.holding {frames : List (List (Ending ω))} (h : c.Arrives cur s m cur₁ s₁)
    (hf : cur.Holding frames) : cur₁.Holding frames := by
  obtain ⟨elements, tagMark, rfl⟩ := h.cursor_eq
  exact hf.congr rfl rfl

theorem Arrives.running (h : c.Arrives cur s m cur₁ s₁) (hs : s.response.halted = false) :
    s₁.response.halted = false :=
  h.wrote.halted_eq.trans hs

theorem marker_eq_ok {t : Template ω δ} {index : Nat} :
    t.marker index s = .ok (m, s') ↔ t.markers[index]? = some m ∧ s' = s := by
  rw [Template.marker_eq_elim]
  exact elim_eq_ok

theorem element_eq_ok {t : Template ω δ} {index : Nat} :
    t.element index s = .ok (e, s') ↔ t.elements[index]? = some e ∧ s' = s := by
  rw [Template.element_eq_elim]
  exact elim_eq_ok

theorem visit_of_lt (h : cur.marker < c.exit.marker) (hm : c.template.markers[cur.marker]? = some m)
    (s : Session ω) :
    c.visit data cur s = ((do
      let cur ← c.template.passTags m.position cur.elements cur
      c.template.advance cur m.position) >>= fun cur => do
        if ← Render.isHalted then return Next.stop .halted cur.stack
        c.act data cur m) s := by
  rw [visit, if_pos h, bind_of_ok (marker_eq_ok.mpr ⟨hm, rfl⟩), bind_assoc]

theorem visit_of_ge (h : c.exit.marker ≤ cur.marker) : c.visit data cur = c.finish cur :=
  if_neg (Nat.not_lt_of_le h)

theorem step_of_none (h : cur.jump = none) : c.step data cur = c.visit data cur := by
  rw [step, h]

theorem step_of_some (h : cur.jump = some jump) :
    c.step data cur = (do
      if jump.start ≤ (← c.nextPosition cur) then c.takeJump cur jump else c.visit data cur) := by
  rw [step, h]

theorem nextPosition_eq_ok {position : Nat} :
    c.nextPosition cur s = .ok (position, s') ↔ s' = s ∧
      if cur.marker < c.exit.marker then
        ∃ m, c.template.markers[cur.marker]? = some m ∧ position = m.position
      else position = c.exit.offset := by
  unfold nextPosition
  by_cases hlt : cur.marker < c.exit.marker
  · rw [if_pos hlt, if_pos hlt]
    constructor
    · intro h
      obtain ⟨m, s₁, hmarker, hpure⟩ := ok_of_bind h
      obtain ⟨hm, rfl⟩ := marker_eq_ok.mp hmarker
      cases hpure
      exact ⟨rfl, m, hm, rfl⟩
    · rintro ⟨rfl, m, hm, rfl⟩
      exact bind_of_ok (marker_eq_ok.mpr ⟨hm, rfl⟩)
  · rw [if_neg hlt, if_neg hlt]
    constructor
    · intro h
      cases h
      exact ⟨rfl, rfl⟩
    · rintro ⟨rfl, rfl⟩
      rfl

/-- The walk does not come to the start of a planned jump before the place `position`. -/
theorem step_eq_visit {position : Nat} (hnext : c.nextPosition cur s = .ok (position, s))
    (hj : ∀ jump, cur.jump = some jump → position < jump.start) :
    c.step data cur s = c.visit data cur s := by
  cases h : cur.jump with
  | none => rw [step_of_none h]
  | some jump =>
    rw [step_of_some h, bind_of_ok hnext, if_neg (Nat.not_le_of_lt (hj jump h))]

/-- A step that comes to a marker does what the marker says. -/
theorem Arrives.step_eq (h : c.Arrives cur s m cur₁ s₁) (hs : s.response.halted = false) :
    c.step data cur s = c.act data cur₁ m s₁ := by
  rw [step_eq_visit (nextPosition_eq_ok.mpr ⟨rfl, ?_⟩) h.before_jump,
    visit_of_lt h.marker_lt h.marker_eq, bind_of_ok h.run_eq, isHalted_bind, h.running hs]
  · rfl
  · rw [if_pos h.marker_lt]
    exact ⟨m, h.marker_eq, rfl⟩

theorem Jumps.step_eq (h : c.Jumps cur s jump cur₁ s₁) :
    c.step data cur s = (if jump.swallows then c.swallow cur₁ jump.target
      else pure (.goto (cur₁.moveTo jump.target)) : Render ω (Next ω)) s₁ := by
  obtain ⟨position, hnext, hle⟩ := h.ahead
  rw [step_of_some h.jump_eq, bind_of_ok hnext, if_pos hle]
  exact bind_of_ok h.run_eq

theorem Exits.step_eq (h : c.Exits cur s cur₁ s₁) (hs : s.response.halted = false) :
    c.step data cur s = (do
      let (carried, stack) ← c.handOver cur₁
      return .stop (.finished carried) stack : Render ω (Next ω)) s₁ := by
  have hwrote := (Template.advance_eq_ok h.run_eq).2
  rw [step_eq_visit (nextPosition_eq_ok.mpr ⟨rfl, ?_⟩) h.before_jump, visit_of_ge h.marker_ge,
    finish, bind_of_ok h.run_eq, isHalted_bind, hwrote.halted_eq.trans hs]
  · rfl
  · rw [if_neg (Nat.not_lt_of_le h.marker_ge)]

/-- A visit that returns comes to a marker, or to the end. -/
theorem exists_of_visit (h : c.visit data cur s = .ok (next, s'))
    (hj : ∀ jump, cur.jump = some jump →
      ∀ position, c.nextPosition cur s = .ok (position, s) → position < jump.start) :
    (∃ m cur₁ s₁, c.Arrives cur s m cur₁ s₁) ∨ ∃ cur₁ s₁, c.Exits cur s cur₁ s₁ := by
  by_cases hlt : cur.marker < c.exit.marker
  · rw [visit, if_pos hlt] at h
    obtain ⟨m, s₀, hmarker, hrest⟩ := ok_of_bind h
    obtain ⟨hm, rfl⟩ := marker_eq_ok.mp hmarker
    rw [← bind_assoc] at hrest
    obtain ⟨cur₁, s₁, hrun, -⟩ := ok_of_bind hrest
    refine .inl ⟨m, cur₁, s₁, hlt, hm, fun jump hjump => ?_, hrun⟩
    refine hj jump hjump _ (nextPosition_eq_ok.mpr ⟨rfl, ?_⟩)
    rw [if_pos hlt]
    exact ⟨m, hm, rfl⟩
  · have hge := Nat.le_of_not_lt hlt
    rw [visit_of_ge hge] at h
    obtain ⟨cur₁, s₁, hrun, -⟩ := ok_of_bind h
    refine .inr ⟨cur₁, s₁, hge, fun jump hjump => ?_, hrun⟩
    refine hj jump hjump _ (nextPosition_eq_ok.mpr ⟨rfl, ?_⟩)
    rw [if_neg hlt]

/-- A step that returns comes to a marker, to the start of a jump, or to the end. -/
theorem exists_of_step (h : c.step data cur s = .ok (next, s')) :
    (∃ m cur₁ s₁, c.Arrives cur s m cur₁ s₁) ∨ (∃ jump cur₁ s₁, c.Jumps cur s jump cur₁ s₁) ∨
      ∃ cur₁ s₁, c.Exits cur s cur₁ s₁ := by
  cases hj : cur.jump with
  | none =>
    rw [step_of_none hj] at h
    refine (exists_of_visit h ?_).imp_right .inr
    intro jump hjump
    cases hj.symm.trans hjump
  | some jump =>
    rw [step_of_some hj] at h
    obtain ⟨position, s₀, hnext, hrest⟩ := ok_of_bind h
    obtain ⟨rfl, -⟩ := nextPosition_eq_ok.mp hnext
    by_cases hle : jump.start ≤ position
    · rw [if_pos hle] at hrest
      obtain ⟨cur₁, s₁, hrun, -⟩ := ok_of_bind hrest
      exact .inr (.inl ⟨jump, cur₁, s₁, hj, ⟨position, hnext, hle⟩, hrun⟩)
    · rw [if_neg hle] at hrest
      refine (exists_of_visit hrest ?_).imp_right .inr
      intro jump' hjump position' hnext'
      cases hj.symm.trans hjump
      cases hnext.symm.trans hnext'
      exact Nat.lt_of_not_le hle

/-! ## 4. Transitions -/

theorem handOver_of_handsOver (h : c.HandsOver cur) :
    c.handOver cur = pure (cur.pending, cur.cleared) := by
  unfold handOver
  by_cases hd : cur.depth = 0
  · rw [if_pos hd, Cursor.pending, Cursor.cleared, EndingStack.openEndings,
      EndingStack.clearOpen, hd]
    rfl
  · rw [if_neg hd, if_pos (h.resolve_left hd), Cursor.pending, Cursor.cleared]

theorem handOver_eq_ok {p : List (Ending ω) × EndingStack (Ending ω)}
    (h : c.handOver cur s = .ok (p, s')) :
    c.HandsOver cur ∧ p = (cur.pending, cur.cleared) ∧ s' = s := by
  by_cases hover : c.HandsOver cur
  · rw [handOver_of_handsOver hover] at h
    cases h
    exact ⟨hover, rfl, rfl⟩
  · obtain ⟨hd, hpart⟩ := not_or.mp hover
    rw [handOver, if_neg hd, if_neg hpart] at h
    cases h

theorem swallow_of_handsOver (h : c.HandsOver cur) (resume : Place) :
    c.swallow cur resume = pure (swallowed cur resume) := by
  rw [swallow, handOver_of_handsOver h]
  rfl

theorem swallow_eq_ok (h : c.swallow cur resume s = .ok (next, s')) :
    c.HandsOver cur ∧ next = swallowed cur resume ∧ s' = s := by
  obtain ⟨p, s₁, hover, hpure⟩ := ok_of_bind h
  obtain ⟨hc, rfl, rfl⟩ := handOver_eq_ok hover
  cases hpure
  exact ⟨hc, rfl, rfl⟩

theorem proceed_run (cur : Cursor ω) (s : Session ω) : proceed cur s = .ok (settled cur s, s) := by
  unfold proceed settled
  rw [isHalted_bind]
  cases s.response.halted <;> rfl

theorem frame_eq_ok {depth : Nat} {frame : List (Ending ω)} :
    cur.frame depth s = .ok (frame, s') ↔ cur.stack.frame? depth = some frame ∧ s' = s := by
  rw [Cursor.frame_eq_elim]
  exact elim_eq_ok

theorem closeWrapper_of_depth {depth : Nat} (hd : cur.depth = depth + 1) :
    closeWrapper cur = (do
      let frame ← cur.frame depth
      runEndings frame
      proceed (cur.leave depth)) := by
  rw [closeWrapper, hd]
  rfl

theorem frame?_enter {frame : List (Ending ω)} (h : cur.stack.frame? cur.depth = some frame)
    (endings : List (Ending ω)) : (cur.enter endings).stack.frame? cur.depth = some endings := by
  have hlt : cur.depth < cur.stack.depthCapacity := (List.getElem?_eq_some_iff.mp h).1
  rw [Cursor.enter, EndingStack.frame?_setFrame, if_pos rfl, if_pos hlt]

theorem closeWrapper_eq_ok (h : closeWrapper cur s = .ok (next, s')) :
    ∃ depth frame, cur.depth = depth + 1 ∧ cur.stack.frame? depth = some frame ∧
      runEndings frame s = .ok ((), s') ∧ next = settled (cur.leave depth) s' := by
  cases hd : cur.depth with
  | zero =>
    rw [closeWrapper, hd] at h
    cases h
  | succ depth =>
    rw [closeWrapper_of_depth hd] at h
    obtain ⟨frame, s₀, hframe, hrest⟩ := ok_of_bind h
    obtain ⟨hf, rfl⟩ := frame_eq_ok.mp hframe
    obtain ⟨⟨⟩, s₁, hrun, hproceed⟩ := ok_of_bind hrest
    rw [proceed_run] at hproceed
    cases hproceed
    exact ⟨depth, frame, rfl, hf, hrun, rfl⟩

theorem closeWrapper_run {depth : Nat} {frame : List (Ending ω)} (hd : cur.depth = depth + 1)
    (hf : cur.stack.frame? depth = some frame) (hrun : runEndings frame s = .ok ((), s')) :
    closeWrapper cur s = .ok (settled (cur.leave depth) s', s') := by
  rw [closeWrapper_of_depth hd, bind_of_ok (frame_eq_ok.mpr ⟨hf, rfl⟩), bind_of_ok hrun,
    proceed_run]

/-- The callback of an attribute marker of the element `e` is run and returns. -/
inductive CallsInTag (c : Component ω δ) (data : δ) (cur : Cursor ω) (s : Session ω) (index : Nat)
    (e : Element) : Cursor ω → AttributeScope → Session ω → Prop
  | intro {m : Marker ω δ} {run : δ → AttributeRender ω Unit} {cur₁ : Cursor ω}
      {s₁ s' : Session ω} {scope : AttributeScope} :
      c.Arrives cur s m cur₁ s₁ → m.action = .attributes run index →
      c.template.elements[index]? = some e → (run data).run {} s₁ = .ok (((), scope), s') →
      CallsInTag c data cur s index e cur₁ scope s'

/-- The callback of a wrapper start is run and returns. -/
inductive CallsAtStart (c : Component ω δ) (data : δ) (cur : Cursor ω) (s : Session ω)
    (closing? : Option Nat) : Cursor ω → WrapperScope ω → Session ω → Prop
  | intro {m : Marker ω δ} {run : δ → WrapperRender ω Unit} {cur₁ : Cursor ω}
      {s₁ s' : Session ω} {frame : List (Ending ω)} {scope : WrapperScope ω} :
      c.Arrives cur s m cur₁ s₁ → m.action = .wrapperStart run closing? →
      cur₁.stack.frame? cur₁.depth = some frame →
      (run data).run { endings := frame } s₁ = .ok (((), scope), s') →
      CallsAtStart c data cur s closing? cur₁ scope s'

/-- The cursor behind an attribute marker of the element `e`. -/
def behindTag (c : Component ω δ) (cur : Cursor ω) (e : Element) (scope : AttributeScope) :
    Cursor ω :=
  if scope.skipContent then c.planJump cur e else cur.next

theorem stack_behindTag (scope : AttributeScope) :
    (c.behindTag cur e scope).stack = cur.stack := by
  unfold behindTag planJump
  split
  · split <;> rfl
  · rfl

theorem depth_behindTag (scope : AttributeScope) :
    (c.behindTag cur e scope).depth = cur.depth := by
  unfold behindTag planJump
  split
  · split <;> rfl
  · rfl

theorem CallsInTag.element_eq {index : Nat} {scope : AttributeScope}
    (h : c.CallsInTag data cur s index e cur₁ scope s₁) :
    c.template.elements[index]? = some e := by
  obtain ⟨-, -, he, -⟩ := h
  exact he

/-- An element that holds the content marker is dropped before that. -/
def DropsContent (c : Component ω δ) (e : Element) : Prop :=
  c.part = .preContent ∧ e.containsContent = true

instance : Decidable (c.DropsContent e) := inferInstanceAs (Decidable (_ ∧ _))

/-- The session with the output cut back to the start of the element. -/
def CutsBack (cur : Cursor ω) (e : Element) (s s' : Session ω) : Prop :=
  ∃ size, sizeBefore cur e s = .ok (size, s) ∧
    s' = { s with response := s.response.truncate size }

/-- What a step does from a session that is not halted: where the walk goes on, or how it
ends. -/
inductive Transition (c : Component ω δ) (data : δ) (cur : Cursor ω) (s : Session ω) :
    Next ω → Session ω → Prop
  | jump {jump : Jump} {cur₁ : Cursor ω} {s₁ : Session ω} :
      c.Jumps cur s jump cur₁ s₁ → jump.swallows = false →
      Transition c data cur s (.goto (cur₁.moveTo jump.target)) s₁
  | jumpOut {jump : Jump} {cur₁ : Cursor ω} {s₁ : Session ω} :
      c.Jumps cur s jump cur₁ s₁ → jump.swallows = true → c.HandsOver cur₁ →
      Transition c data cur s (swallowed cur₁ jump.target) s₁
  | plain {m : Marker ω δ} {run : δ → Render ω Unit} {cur₁ : Cursor ω} {s₁ s' : Session ω} :
      c.Arrives cur s m cur₁ s₁ → m.action = .plain run → run data s₁ = .ok ((), s') →
      Transition c data cur s (settled cur₁.next s') s'
  | inTag {index : Nat} {e : Element} {cur₁ : Cursor ω} {scope : AttributeScope}
      {s' : Session ω} : c.CallsInTag data cur s index e cur₁ scope s' →
      (s'.response.halted = false → scope.skipElement = false) →
      Transition c data cur s
        (settled (c.behindTag cur₁ e scope) s') s'
  | dropElement {index : Nat} {e : Element} {cur₁ : Cursor ω} {scope : AttributeScope}
      {s₁ s' : Session ω} : c.CallsInTag data cur s index e cur₁ scope s₁ →
      s₁.response.halted = false → scope.skipElement = true → CutsBack cur₁ e s₁ s' →
      ¬c.DropsContent e →
      Transition c data cur s
        (.goto (cur₁.moveTo { marker := e.nextMarker, offset := e.closeEnd })) s'
  | elementOut {index : Nat} {e : Element} {cur₁ : Cursor ω} {scope : AttributeScope}
      {s₁ s' : Session ω} : c.CallsInTag data cur s index e cur₁ scope s₁ →
      s₁.response.halted = false → scope.skipElement = true → CutsBack cur₁ e s₁ s' →
      c.DropsContent e →
      Transition c data cur s
        (swallowed cur₁ { marker := e.nextMarker, offset := e.closeEnd }) s'
  | wrapperStart {closing? : Option Nat} {cur₁ : Cursor ω} {scope : WrapperScope ω}
      {s' : Session ω} : c.CallsAtStart data cur s closing? cur₁ scope s' →
      (s'.response.halted = false → scope.skipContent = false) →
      Transition c data cur s (settled (cur₁.enter scope.endings).next s') s'
  | dropContent {index : Nat} {cur₁ : Cursor ω} {scope : WrapperScope ω} {s₁ s' : Session ω}
      {n : Marker ω δ} : c.CallsAtStart data cur s (some index) cur₁ scope s₁ →
      s₁.response.halted = false → scope.skipContent = true →
      c.template.markers[index]? = some n → index < c.exit.marker →
      runEndings scope.endings s₁ = .ok ((), s') →
      Transition c data cur s (settled (({ cur₁.enter scope.endings with
        marker := index, offset := n.position }).leave cur₁.depth) s') s'
  | contentOut {index : Nat} {cur₁ : Cursor ω} {scope : WrapperScope ω} {s' : Session ω}
      {n : Marker ω δ} : c.CallsAtStart data cur s (some index) cur₁ scope s' →
      s'.response.halted = false → scope.skipContent = true →
      c.template.markers[index]? = some n → c.exit.marker ≤ index →
      c.HandsOver (cur₁.enter scope.endings) →
      Transition c data cur s
        (swallowed (cur₁.enter scope.endings) { marker := index, offset := n.position }) s'
  | wrapperEnd {m : Marker ω δ} {opening depth : Nat} {cur₁ : Cursor ω} {s₁ s' : Session ω}
      {frame : List (Ending ω)} : c.Arrives cur s m cur₁ s₁ → m.action = .wrapperEnd opening →
      c.entry.marker ≤ opening → cur₁.depth = depth + 1 →
      cur₁.stack.frame? depth = some frame → runEndings frame s₁ = .ok ((), s') →
      Transition c data cur s (settled (cur₁.leave depth) s') s'
  /-- A wrapper ends that was opened in the part before. -/
  | endBefore {m : Marker ω δ} {opening : Nat} {cur₁ : Cursor ω} {s₁ : Session ω} :
      c.Arrives cur s m cur₁ s₁ → m.action = .wrapperEnd opening → opening < c.entry.marker →
      Transition c data cur s (.goto cur₁.next) s₁
  | finish {cur₁ : Cursor ω} {s₁ : Session ω} : c.Exits cur s cur₁ s₁ → c.HandsOver cur₁ →
      Transition c data cur s (.stop (.finished cur₁.pending) cur₁.cleared) s₁

/-- What follows the callback of an attribute marker. -/
theorem runAttributes_run {run : AttributeRender ω Unit} {scope : AttributeScope}
    (h : run.run {} s = .ok (((), scope), s')) :
    c.runAttributes cur run e s =
      if s'.response.halted = false ∧ scope.skipElement = true then c.dropElement cur e s'
      else .ok (settled (c.behindTag cur e scope) s', s') := by
  rw [runAttributes, bind_of_ok h]
  show (Render.isHalted >>= _) s' = _
  rw [isHalted_bind]
  cases hs : s'.response.halted with
  | true =>
    simp only [settled, hs, stack_behindTag]
    rfl
  | false =>
    cases hk : scope.skipElement <;> cases hc : scope.skipContent <;>
      simp [settled, behindTag, hs, hc]

/-- What follows the callback of a wrapper start. -/
theorem runWrapperStart_run {run : WrapperRender ω Unit} {closing? : Option Nat}
    {frame : List (Ending ω)} {scope : WrapperScope ω}
    (hf : cur.stack.frame? cur.depth = some frame)
    (h : run.run { endings := frame } s = .ok (((), scope), s')) :
    c.runWrapperStart cur run closing? s =
      if s'.response.halted = false ∧ scope.skipContent = true then
        c.dropContent (cur.enter scope.endings) closing? s'
      else .ok (settled (cur.enter scope.endings).next s', s') := by
  rw [runWrapperStart, bind_of_ok (frame_eq_ok.mpr ⟨hf, rfl⟩), bind_of_ok h]
  show (Render.isHalted >>= _) s' = _
  rw [isHalted_bind]
  cases hs : s'.response.halted with
  | true =>
    simp only [settled, hs]
    rfl
  | false => cases hk : scope.skipContent <;> simp [settled, Cursor.enter, hs]

theorem sizeBefore_eq_ok {size : Nat} (h : sizeBefore cur e s = .ok (size, s')) : s' = s := by
  unfold sizeBefore at h
  cases hmark : cur.tagMark with
  | none =>
    rw [hmark] at h
    cases h
    rfl
  | some mark =>
    rw [hmark] at h
    by_cases hstart : mark.start = e.openStart
    · simp only [hstart, if_true] at h
      cases h
      rfl
    · simp only [hstart, if_false] at h
      cases h
      rfl

/-- The output can always be cut back. -/
theorem exists_cutsBack (cur : Cursor ω) (e : Element) (s : Session ω) :
    ∃ s', CutsBack cur e s s' := by
  suffices h : ∃ size, sizeBefore cur e s = .ok (size, s) by
    obtain ⟨size, hsize⟩ := h
    exact ⟨_, size, hsize, rfl⟩
  unfold sizeBefore
  cases cur.tagMark with
  | none => exact ⟨_, rfl⟩
  | some mark =>
    by_cases hstart : mark.start = e.openStart
    · simp only [hstart, if_true]
      exact ⟨_, rfl⟩
    · simp only [hstart, if_false]
      exact ⟨_, rfl⟩

/-- The output is cut back, and then the walk goes on, or ends. -/
theorem dropElement_run (hcut : CutsBack cur e s s₁) :
    c.dropElement cur e s = (if c.DropsContent e then
        c.swallow cur { marker := e.nextMarker, offset := e.closeEnd }
      else pure (.goto (cur.moveTo { marker := e.nextMarker, offset := e.closeEnd })) :
        Render ω (Next ω)) s₁ := by
  obtain ⟨size, hsize, rfl⟩ := hcut
  rw [dropElement_eq, bind_of_ok hsize]
  rfl

theorem dropElement_eq_ok (h : c.dropElement cur e s = .ok (next, s')) :
    CutsBack cur e s s' ∧
      ((¬c.DropsContent e ∧
          next = .goto (cur.moveTo { marker := e.nextMarker, offset := e.closeEnd })) ∨
        (c.DropsContent e ∧ c.HandsOver cur ∧
          next = swallowed cur { marker := e.nextMarker, offset := e.closeEnd })) := by
  have hsize : ∃ size, sizeBefore cur e s = .ok (size, s) := by
    rw [dropElement_eq] at h
    obtain ⟨size, s₁, hsize, -⟩ := ok_of_bind h
    obtain rfl := sizeBefore_eq_ok hsize
    exact ⟨size, hsize⟩
  obtain ⟨size, hsize⟩ := hsize
  have hcut : CutsBack cur e s { s with response := s.response.truncate size } := ⟨size, hsize, rfl⟩
  rw [dropElement_run hcut] at h
  by_cases hc : c.DropsContent e
  · rw [if_pos hc] at h
    obtain ⟨hover, rfl, rfl⟩ := swallow_eq_ok h
    exact ⟨hcut, .inr ⟨hc, hover, rfl⟩⟩
  · rw [if_neg hc] at h
    cases h
    exact ⟨hcut, .inl ⟨hc, rfl⟩⟩

/-- The content of the wrapper is dropped that the cursor has entered. -/
theorem dropContent_run {index : Nat} {n : Marker ω δ} (hn : c.template.markers[index]? = some n)
    (s : Session ω) :
    c.dropContent cur (some index) s = (if c.exit.marker ≤ index then
        c.swallow cur { marker := index, offset := n.position }
      else closeWrapper { cur with marker := index, offset := n.position } :
        Render ω (Next ω)) s := by
  rw [dropContent, bind_of_ok (marker_eq_ok.mpr ⟨hn, rfl⟩)]

/-- The content is dropped of the wrapper that the cursor has entered, with the endings that
its callback has registered. -/
theorem dropContent_eq_ok {closing? : Option Nat} {frame endings : List (Ending ω)}
    (hf : cur.stack.frame? cur.depth = some frame)
    (h : c.dropContent (cur.enter endings) closing? s = .ok (next, s')) :
    ∃ index n, closing? = some index ∧ c.template.markers[index]? = some n ∧
      ((c.exit.marker ≤ index ∧ c.HandsOver (cur.enter endings) ∧ s' = s ∧
          next = swallowed (cur.enter endings) { marker := index, offset := n.position }) ∨
        (index < c.exit.marker ∧ runEndings endings s = .ok ((), s') ∧
          next = settled (({ cur.enter endings with
            marker := index, offset := n.position }).leave cur.depth) s')) := by
  cases closing? with
  | none => cases h
  | some index =>
    have hmarker := h
    obtain ⟨n, s₁, hmarker, -⟩ := ok_of_bind hmarker
    obtain ⟨hn, rfl⟩ := marker_eq_ok.mp hmarker
    refine ⟨index, n, rfl, hn, ?_⟩
    rw [dropContent_run hn] at h
    by_cases hle : c.exit.marker ≤ index
    · rw [if_pos hle] at h
      obtain ⟨hover, rfl, rfl⟩ := swallow_eq_ok h
      exact .inl ⟨hle, hover, rfl, rfl⟩
    · rw [if_neg hle] at h
      obtain ⟨depth, frame', hd, hf', hends, rfl⟩ := closeWrapper_eq_ok h
      obtain rfl : cur.depth = depth := Nat.succ.inj hd
      cases (frame?_enter hf endings).symm.trans hf'
      exact .inr ⟨Nat.lt_of_not_le hle, hends, rfl⟩

theorem transition_of_attributes {run : δ → AttributeRender ω Unit} {index : Nat}
    (ha : c.Arrives cur s m cur₁ s₁) (hm : m.action = .attributes run index)
    (h : (do let e ← c.template.element index
             c.runAttributes cur₁ (run data) e) s₁ = .ok (next, s')) :
    c.Transition data cur s next s' := by
  obtain ⟨e, s₂, helement, hafter⟩ := ok_of_bind h
  obtain ⟨he, rfl⟩ := element_eq_ok.mp helement
  obtain ⟨⟨⟨⟩, scope⟩, s₃, hrun, -⟩ := ok_of_bind hafter
  have hcalls : c.CallsInTag data cur s index e cur₁ scope s₃ := .intro ha hm he hrun
  rw [runAttributes_run hrun] at hafter
  by_cases hdrop : s₃.response.halted = false ∧ scope.skipElement = true
  · rw [if_pos hdrop] at hafter
    obtain ⟨hcut, ⟨hc, rfl⟩ | ⟨hc, hover, rfl⟩⟩ := dropElement_eq_ok hafter
    · exact .dropElement hcalls hdrop.1 hdrop.2 hcut hc
    · exact .elementOut hcalls hdrop.1 hdrop.2 hcut hc
  · rw [if_neg hdrop] at hafter
    cases hafter
    exact .inTag hcalls (by simpa using hdrop)

theorem transition_of_wrapperStart {run : δ → WrapperRender ω Unit} {closing? : Option Nat}
    (ha : c.Arrives cur s m cur₁ s₁) (hm : m.action = .wrapperStart run closing?)
    (h : c.runWrapperStart cur₁ (run data) closing? s₁ = .ok (next, s')) :
    c.Transition data cur s next s' := by
  have hcallback := h
  obtain ⟨frame, s₂, hframe, hrest⟩ := ok_of_bind hcallback
  obtain ⟨hf, rfl⟩ := frame_eq_ok.mp hframe
  obtain ⟨⟨⟨⟩, scope⟩, s₃, hrun, -⟩ := ok_of_bind hrest
  have hcalls : c.CallsAtStart data cur s closing? cur₁ scope s₃ := .intro ha hm hf hrun
  rw [runWrapperStart_run hf hrun] at h
  by_cases hdrop : s₃.response.halted = false ∧ scope.skipContent = true
  · rw [if_pos hdrop] at h
    obtain ⟨index, n, rfl, hn, ⟨hle, hover, rfl, rfl⟩ | ⟨hlt, hends, rfl⟩⟩ :=
      dropContent_eq_ok hf h
    · exact .contentOut hcalls hdrop.1 hdrop.2 hn hle hover
    · exact .dropContent hcalls hdrop.1 hdrop.2 hn hlt hends
  · rw [if_neg hdrop] at h
    cases h
    exact .wrapperStart hcalls (by simpa using hdrop)

/-- What a marker says is done in one of the ways of a transition. -/
theorem transition_of_act (ha : c.Arrives cur s m cur₁ s₁)
    (h : c.act data cur₁ m s₁ = .ok (next, s')) : c.Transition data cur s next s' := by
  unfold act at h
  cases hm : m.action with
  | plain run =>
    rw [hm] at h
    obtain ⟨⟨⟩, s₂, hrun, hproceed⟩ := ok_of_bind h
    rw [proceed_run] at hproceed
    cases hproceed
    exact .plain ha hm hrun
  | attributes run index =>
    rw [hm] at h
    exact transition_of_attributes ha hm h
  | wrapperStart run closing? =>
    rw [hm] at h
    exact transition_of_wrapperStart ha hm h
  | wrapperEnd opening =>
    rw [hm] at h
    simp only at h
    by_cases hle : c.entry.marker ≤ opening
    · rw [if_pos hle] at h
      obtain ⟨depth, frame, hd, hf, hrun, rfl⟩ := closeWrapper_eq_ok h
      exact .wrapperEnd ha hm hle hd hf hrun
    · rw [if_neg hle] at h
      cases h
      exact .endBefore ha hm (Nat.lt_of_not_le hle)

theorem transition_of_step (hs : s.response.halted = false)
    (h : c.step data cur s = .ok (next, s')) : c.Transition data cur s next s' := by
  rcases exists_of_step h with ⟨m, cur₁, s₁, ha⟩ | ⟨jump, cur₁, s₁, hj⟩ | ⟨cur₁, s₁, he⟩
  · rw [ha.step_eq hs] at h
    exact transition_of_act ha h
  · rw [hj.step_eq] at h
    cases hk : jump.swallows with
    | true =>
      rw [hk, if_pos rfl] at h
      obtain ⟨hover, rfl, rfl⟩ := swallow_eq_ok h
      exact .jumpOut hj hk hover
    | false =>
      rw [hk] at h
      cases h
      exact .jump hj hk
  · rw [he.step_eq hs] at h
    obtain ⟨p, s₂, hover, hpure⟩ := ok_of_bind h
    obtain ⟨hc, rfl, rfl⟩ := handOver_eq_ok hover
    cases hpure
    exact .finish he hc

theorem CallsInTag.step_eq {index : Nat} {scope : AttributeScope} (hs : s.response.halted = false)
    (h : c.CallsInTag data cur s index e cur₁ scope s₁) :
    c.step data cur s =
      if s₁.response.halted = false ∧ scope.skipElement = true then c.dropElement cur₁ e s₁
      else .ok (settled (c.behindTag cur₁ e scope) s₁, s₁) := by
  obtain ⟨ha, hm, he, hrun⟩ := h
  rw [ha.step_eq hs, act, hm, ← runAttributes_run hrun]
  exact bind_of_ok (element_eq_ok.mpr ⟨he, rfl⟩)

theorem CallsAtStart.step_eq {closing? : Option Nat} {scope : WrapperScope ω}
    (hs : s.response.halted = false) (h : c.CallsAtStart data cur s closing? cur₁ scope s₁) :
    c.step data cur s =
      if s₁.response.halted = false ∧ scope.skipContent = true then
        c.dropContent (cur₁.enter scope.endings) closing? s₁
      else .ok (settled (cur₁.enter scope.endings).next s₁, s₁) := by
  obtain ⟨ha, hm, hf, hrun⟩ := h
  rw [ha.step_eq hs, act, hm]
  exact runWrapperStart_run hf hrun

theorem Transition.step_eq (hs : s.response.halted = false)
    (h : c.Transition data cur s next s') : c.step data cur s = .ok (next, s') := by
  cases h with
  | jump hj hk =>
    rw [hj.step_eq, hk]
    rfl
  | jumpOut hj hk hover =>
    rw [hj.step_eq, hk, if_pos rfl, swallow_of_handsOver hover]
    rfl
  | plain ha hm hrun =>
    rw [ha.step_eq hs, act, hm]
    exact (bind_of_ok hrun).trans (proceed_run _ _)
  | inTag hcalls hkeep =>
    rw [hcalls.step_eq hs, if_neg (by simpa using hkeep)]
  | dropElement hcalls hs₁ hk hcut hc =>
    rw [hcalls.step_eq hs, if_pos ⟨hs₁, hk⟩, dropElement_run hcut, if_neg hc]
    rfl
  | elementOut hcalls hs₁ hk hcut hc =>
    rw [hcalls.step_eq hs, if_pos ⟨hs₁, hk⟩, dropElement_run hcut, if_pos hc,
      swallow_of_handsOver (.inr hc.1)]
    rfl
  | wrapperStart hcalls hkeep =>
    rw [hcalls.step_eq hs, if_neg (by simpa using hkeep)]
  | dropContent hcalls hs₁ hk hn hlt hends =>
    rw [hcalls.step_eq hs, if_pos ⟨hs₁, hk⟩, dropContent_run hn, if_neg (Nat.not_le_of_lt hlt)]
    obtain ⟨ha, hm, hf, hrun⟩ := hcalls
    exact closeWrapper_run rfl (frame?_enter hf _) hends
  | contentOut hcalls hs₁ hk hn hle hover =>
    rw [hcalls.step_eq hs, if_pos ⟨hs₁, hk⟩, dropContent_run hn, if_pos hle,
      swallow_of_handsOver hover]
    rfl
  | wrapperEnd ha hm hle hd hf hrun =>
    rw [ha.step_eq hs, act, hm]
    simp only
    rw [if_pos hle]
    exact closeWrapper_run hd hf hrun
  | endBefore ha hm hlt =>
    rw [ha.step_eq hs, act, hm]
    simp only
    rw [if_neg (Nat.not_le_of_lt hlt)]
    rfl
  | finish he hover =>
    rw [he.step_eq hs, handOver_of_handsOver hover]
    rfl

end Component

end HtmlTemplate
