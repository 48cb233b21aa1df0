import HtmlTemplate.Proofs.Rendering.Dropping

/-!
# Walks come to an end

A walk makes at most two steps for each marker ahead, whatever callbacks ask it to drop: a step
leads behind a marker, or takes a jump, and the next one leads behind a marker then. So the check
that every step moves the cursor forward stops no walk over a compiled template. No callback is
invoked twice in a walk, and they are invoked in the order in which the markers stand in the source.

Results:
1. `attempt_eq`: as many steps as that end the walk, without the check.
2. `Invokes.sorted`, `Invokes.length_le`: the markers whose callbacks are invoked.
3. `progresses_of_compile`: walks over compiled templates, from wherever they begin.
-/

namespace HtmlTemplate

open Render

variable {ω δ : Type}

namespace Component

variable {c : Component ω δ} {data : δ} {cur cur' : Cursor ω} {s s' : Session ω}
  {content? : Option Place} {calls : List Nat}

/-! ## 1. Steps that are not checked -/

/-- Makes up to `n` steps, whether they move the cursor forward or not. There is no result if the
walk has not ended by then. -/
def attempt (c : Component ω δ) (data : δ) :
    Nat → Cursor ω → Render ω (Option (Outcome ω × EndingStack (Ending ω)))
  | 0, _ => return none
  | n + 1, cur => do
    match ← c.step data cur with
    | .stop outcome stack => return some (outcome, stack)
    | .goto cur' => c.attempt data n cur'

/-- The walk ends within the steps ahead, and no step of it is checked in vain. -/
theorem attempt_eq {n : Nat} (hw : c.WellFormed content?) (hp : c.Placed cur)
    (hs : s.response.halted = false) (hn : c.remaining cur < n) :
    c.attempt data n cur s = (some <$> c.loop data cur) s := by
  induction n generalizing cur s with
  | zero => exact absurd hn (Nat.not_lt_zero _)
  | succ n ih =>
    rw [attempt, loop, map_bind]
    refine bind_congr_of_ok fun next s₁ hstep => ?_
    cases next with
    | stop outcome stack => rfl
    | goto cur₁ =>
      have htrans := transition_of_step hs hstep
      have hlt := htrans.remaining_lt hw hp
      simp only
      rw [if_pos hlt]
      exact ih (htrans.placed hw hp) (htrans.reports hs)
        (Nat.lt_of_lt_of_le hlt (Nat.le_of_lt_succ hn))

/-! ## 2. Callbacks that are invoked -/

/-- The step from the cursor invokes the callback of the marker at which it comes. -/
def Calls (c : Component ω δ) (cur : Cursor ω) (s : Session ω) : Prop :=
  ∃ m cur₁ s₁ callback, c.Arrives cur s m cur₁ s₁ ∧ m.action.callback? = some callback

/-- From the cursor on, up to some moment of the walk, the callbacks of the markers with these
indices are invoked, in this order. -/
inductive Invokes (c : Component ω δ) (data : δ) : Cursor ω → Session ω → List Nat → Prop
  | none (cur : Cursor ω) (s : Session ω) : Invokes c data cur s []
  /-- The last one need not return. -/
  | last {cur : Cursor ω} {s : Session ω} : c.Calls cur s → Invokes c data cur s [cur.marker]
  | call {cur cur' : Cursor ω} {s s' : Session ω} {calls : List Nat} : c.Calls cur s →
      c.GoesOn data (cur, s) (cur', s') → Invokes c data cur' s' calls →
      Invokes c data cur s (cur.marker :: calls)
  | pass {cur cur' : Cursor ω} {s s' : Session ω} {calls : List Nat} : ¬c.Calls cur s →
      c.GoesOn data (cur, s) (cur', s') → Invokes c data cur' s' calls →
      Invokes c data cur s calls

/-- The markers stand in the component from the index `start` on, each one before the next. -/
structure InOrder (c : Component ω δ) (start : Nat) (calls : List Nat) : Prop where
  within : ∀ i ∈ calls, start ≤ i ∧ i < c.exit.marker
  increasing : calls.Pairwise (· < ·)
  length_le : calls.length ≤ c.exit.marker - start

theorem Calls.marker_lt (h : c.Calls cur s) : cur.marker < c.exit.marker := by
  obtain ⟨m, cur₁, s₁, callback, ha, -⟩ := h
  exact ha.marker_lt

theorem inOrder_nil (c : Component ω δ) (start : Nat) : c.InOrder start [] :=
  ⟨nofun, .nil, Nat.zero_le _⟩

theorem InOrder.of_le {start start' : Nat} (h : c.InOrder start' calls) (hle : start ≤ start') :
    c.InOrder start calls :=
  ⟨fun i hi => ⟨Nat.le_trans hle (h.within i hi).1, (h.within i hi).2⟩, h.increasing,
    Nat.le_trans h.length_le (Nat.sub_le_sub_left hle _)⟩

theorem InOrder.cons {start i : Nat} (h : c.InOrder start calls) (hi : i < start)
    (hlt : i < c.exit.marker) : c.InOrder i (i :: calls) := by
  refine ⟨?_, .cons (fun j hj => Nat.lt_of_lt_of_le hi (h.within j hj).1) h.increasing, ?_⟩
  · rintro j (_ | ⟨_, hj⟩)
    · exact ⟨Nat.le_refl _, hlt⟩
    · exact ⟨Nat.le_trans (Nat.le_of_lt hi) (h.within j hj).1, (h.within j hj).2⟩
  · have hle := h.length_le
    simp only [List.length_cons]
    omega

/-- No callback is invoked twice, nor before one of a marker further to the front. -/
theorem Invokes.inOrder (h : c.Invokes data cur s calls) (hw : c.WellFormed content?)
    (hp : c.Placed cur) (hs : s.response.halted = false) : c.InOrder cur.marker calls := by
  induction h with
  | none => exact c.inOrder_nil _
  | last hcalls => exact (c.inOrder_nil _).cons (Nat.lt_succ_self _) hcalls.marker_lt
  | call hcalls hstep _ ih =>
    have htrans := transition_of_step hs hstep
    have hrest := ih (htrans.placed hw hp) (htrans.reports hs)
    obtain ⟨m, cur₁, s₁, callback, ha, -⟩ := hcalls
    exact hrest.cons (ha.before_of_transition htrans hw hp).2 ha.marker_lt
  | pass _ hstep _ ih =>
    have htrans := transition_of_step hs hstep
    have hrest := ih (htrans.placed hw hp) (htrans.reports hs)
    exact hrest.of_le (htrans.before hw hp).marker_le

/-! ## 3. Walks from a place on -/

/-- What is known of the walks that begin at the place. -/
structure Progresses (c : Component ω δ) (data : δ) (place : Place) : Prop where
  /-- The walk ends, after two steps for each marker ahead and one more at most, and the check does
  not stop it before. -/
  ends : ∀ (stack : EndingStack (Ending ω)) (s : Session ω) (n : Nat),
    s.response.halted = false → 2 * (c.exit.marker - place.marker) < n →
    c.attempt data n (c.cursorAt place stack) s = (some <$> c.walk data place stack) s
  /-- Neither the marker nor the offset ever goes back. -/
  forward : ∀ (stack : EndingStack (Ending ω)) (s : Session ω) (cur cur' : Cursor ω)
    (s₁ s' : Session ω), s.response.halted = false →
    c.Reaches data (c.cursorAt place stack) s cur s₁ → c.Reaches data cur s₁ cur' s' →
    cur.Before cur'
  /-- No callback is invoked twice, and they are invoked in the order of the source. -/
  inOrder : ∀ (stack : EndingStack (Ending ω)) (s : Session ω) (calls : List Nat),
    s.response.halted = false → c.Invokes data (c.cursorAt place stack) s calls →
    c.InOrder place.marker calls
  position_le : ∀ (i j : Nat) (m n : Marker ω δ), i ≤ j → c.template.markers[i]? = some m →
    c.template.markers[j]? = some n → m.position ≤ n.position

theorem progresses_of_placed {place : Place} (hw : c.WellFormed content?)
    (hp : ∀ stack, c.Placed (c.cursorAt place stack)) : c.Progresses data place where
  ends stack s n hs hn := by
    refine attempt_eq hw (hp stack) hs ?_
    simpa [remaining, cursorAt] using hn
  forward stack s cur cur' s₁ s' hs h h' :=
    h'.before (h.running hs) hw (h.placed hs hw (hp stack))
  inOrder stack s calls hs h := h.inOrder hw (hp stack) hs
  position_le := hw.ordered.position_mono

end Component

/-- An element of which it is said that it ends where it begins, before its own marker. -/
def backwards : Component Unit Unit where
  template :=
    { html := .empty
      markers := #[
        { name := "drop", span := { start := 0, stop := 0 }
          action := .attributes (fun _ => AttributeRender.skipElement) 0 }]
      elements := #[{ name := .ofString "i", openStart := 0, nextMarker := 0 }] }
  part := .whole
  entry := { marker := 0, offset := 0 }
  exit := { marker := 1, offset := 0 }
  maxNesting := 0

/-- If it is dropped, then the walk begins anew and never ends. -/
theorem attempt_backwards (n : Nat) :
    backwards.attempt () n (backwards.cursorAt backwards.entry (.ofDepth 0)) (.fresh ()) =
      .ok (none, .fresh ()) := by
  have hstep : backwards.step () (backwards.cursorAt backwards.entry (.ofDepth 0)) (.fresh ()) =
      .ok (.goto (backwards.cursorAt backwards.entry (.ofDepth 0)), .fresh ()) := rfl
  induction n with
  | zero => rfl
  | succ n ih => exact (bind_of_ok hstep).trans ih

/-- Walks over a compiled template end, go forward and invoke each callback once at most, in the
order of the source, whatever is dropped: from the entry of a component, or of a part of a
wrapper, and from wherever the part behind a content marker is resumed. They do so by what the
compiler knows of its elements; with other tables a walk need not end. -/
theorem progresses_of_compile (source : String) (declarations : List (Declaration ω δ))
    (data : δ) :
    (∀ c, Component.compile source declarations = .ok c → c.Progresses data c.entry) ∧
    (∀ w, Wrapper.compile source declarations = .ok w →
      w.preContent.Progresses data w.preContent.entry ∧
        ∀ place, w.ResumesAt data place → w.postContent.Progresses data place) ∧
    ∃ c : Component Unit Unit, ∀ n,
      c.attempt () n (c.cursorAt c.entry (.ofDepth c.maxNesting)) (.fresh ()) =
        .ok (none, .fresh ()) := by
  refine ⟨fun c h => ?_, fun w h => ?_, backwards, attempt_backwards⟩
  · have hw := Component.wellFormed_of_compile h
    exact Component.progresses_of_placed hw (Component.placed_cursorAt_entry hw)
  · have hw := Wrapper.wellFormed_of_compile h
    exact ⟨Component.progresses_of_placed hw.preContent
        (Component.placed_cursorAt_entry hw.preContent),
      fun place hplace => Component.progresses_of_placed hw.postContent
        fun _ => (hplace.beginsAt h).placed⟩

/-- The source `<p ${drop}>${inner}</p>${after}`. -/
def droppedParagraphSource : String := "<p $\x7bdrop\x7d>$\x7binner\x7d</p>$\x7bafter\x7d"

/-- The declarations of `droppedParagraphSource`: the paragraph is dropped. -/
def droppedParagraph : List (Declaration Unit Unit) :=
  [.attributes "drop" fun _ => AttributeRender.skipElement,
   .plain "inner" fun _ => Render.write "inner",
   .plain "after" fun _ => Render.write "after"]

/-- The paragraph compiled. -/
def droppedParagraphComponent : Component Unit Unit where
  template :=
    { html := "<p ></p>".toUTF8
      markers := #[
        { name := "drop", span := { start := 0, stop := 3 }
          action := .attributes (fun _ => AttributeRender.skipElement) 0 },
        { name := "inner", span := { start := 3, stop := 4 }
          action := .plain fun _ => Render.write "inner" },
        { name := "after", span := { start := 4, stop := 8 }
          action := .plain fun _ => Render.write "after" }]
      elements := #[
        { name := .ofString "p", openStart := 0, openEnd := 4, closeStart := 4, closeEnd := 8
          firstInnerMarker := 1, nextMarker := 2 }] }
  part := .whole
  entry := { marker := 0, offset := 0 }
  exit := { marker := 3, offset := 8 }
  maxNesting := 0

theorem compile_droppedParagraph :
    Component.compile droppedParagraphSource droppedParagraph = .ok droppedParagraphComponent := by
  with_unfolding_all rfl

open Component in
/-- The callback in the dropped paragraph is left out. -/
theorem invokes_droppedParagraph :
    droppedParagraphComponent.Invokes ()
      (droppedParagraphComponent.cursorAt { marker := 0, offset := 0 } (.ofDepth 0)) (.fresh ())
      [0, 2] := by
  exact .call ⟨_, _, _, _, ⟨by decide, rfl, nofun, rfl⟩, rfl⟩ rfl
    (.last ⟨_, _, _, _, ⟨by decide, rfl, nofun, rfl⟩, rfl⟩)

/-- The source `${{inner}${}y}}z`. -/
def droppedFrameSource : String := "$\x7b\x7binner\x7d$\x7b\x7dy\x7d\x7dz"

/-- A frame that drops its content, around the content marker. -/
def droppedFrameWrapper : Wrapper (List String) Unit where
  template :=
    { html := "yz".toUTF8
      markers := #[
        { name := "inner", span := { start := 0, stop := 0 }
          action := .wrapperStart (fun _ => droppingFrame false) (some 1) },
        { name := "inner", span := { start := 0, stop := 1 }, action := .wrapperEnd 0 }]
      elements := #[] }
  content := { marker := 1, offset := 0 }
  maxNesting := 1

theorem compile_droppedFrame :
    Wrapper.compile droppedFrameSource [.wrapper "inner" fun _ => droppingFrame false] =
      .ok droppedFrameWrapper := by
  with_unfolding_all rfl

/-- The part behind the content marker is resumed behind the `y`. -/
theorem resumesAt_droppedFrame : droppedFrameWrapper.ResumesAt () { marker := 1, offset := 1 } := by
  have hrun : droppedFrameWrapper.before () (.fresh []) =
      .ok (.swallowed { marker := 1, offset := 1 } [loggingEnding "inner" false], .fresh []) := by
    with_unfolding_all rfl
  exact .inr ⟨_, _, _, hrun⟩

/-- A walk that drops an element, and one that is resumed behind a frame. -/
theorem progresses_of_droppedParagraph :
    droppedParagraphComponent.InOrder 0 [0, 2] ∧
      droppedFrameWrapper.postContent.Progresses () { marker := 1, offset := 1 } := by
  obtain ⟨hcomponent, -, -⟩ := progresses_of_compile droppedParagraphSource droppedParagraph ()
  obtain ⟨-, hwrapper, -⟩ :=
    progresses_of_compile droppedFrameSource [.wrapper "inner" fun _ => droppingFrame false] ()
  have hwalk := hcomponent _ compile_droppedParagraph
  exact ⟨hwalk.inOrder _ _ _ rfl invokes_droppedParagraph,
    (hwrapper _ compile_droppedFrame).2 _ resumesAt_droppedFrame⟩

end HtmlTemplate
