import HtmlTemplate.Proofs.Rendering.Swallowing
import HtmlTemplate.Proofs.Template.Pairing

/-!
# The two parts of a wrapper by themselves

The parts of a wrapper before and behind its content marker may be rendered as components, with
anything in between. That is what rendering the wrapper around a payload does, as long as no
wrapper of its template straddles the content marker. The endings of those that do are run by the
first part at its end, and not by the second part, which knows their ends by their starts: these
lie before its entry.

Results:
1. `Wrapper.Straddles`, `mem_openBefore_content_iff`: the wrappers that are open at the content
   marker.
2. `carried_of_run`: which endings the first part hands over.
3. `step_of_straddling`, `step_of_end`: the ends of wrappers in the second part.
4. `Wrapper.parts_of_compile`: the parts one after the other.
-/

namespace HtmlTemplate

open Render

variable {ω δ : Type}

/-! ## 1. Wrappers around the content marker -/

/-- The wrapper with this index of its start begins before the content marker, and does not end
before the place. -/
def Wrapper.Straddles (w : Wrapper ω δ) (place : Place) (i : Nat) : Prop :=
  i < w.content.marker ∧
    ∃ closing, closingAt? w.template.markers i = some closing ∧ place.marker ≤ closing

namespace Wrapper

variable {w : Wrapper ω δ} {data : δ} {place : Place} {i : Nat}

/-- The wrappers that are open where the part behind the content marker may be resumed. -/
theorem mem_openBefore_iff (hw : w.WellFormed)
    (hplace : w.template.Resumable w.content place) :
    i ∈ openBefore w.template.markers place.marker ↔ w.Straddles place i := by
  constructor
  · intro hi
    obtain ⟨-, m, run, closing?, hm, ha⟩ := start_of_mem_openBefore hi
    obtain ⟨closing, hclosing⟩ := hw.balanced.exists_closing hw.complete hm
      (Marker.kind_eq_wrapperStart_iff.mpr ⟨run, closing?, ha⟩)
    have hopening := hw.balanced.opening_of_closing hclosing
    exact ⟨hplace.opened_lt i hi, closing, hclosing,
      ((hw.balanced.mem_openBefore_iff hopening _).mp hi).2⟩
  · rintro ⟨hlt, closing, hclosing, hle⟩
    have hopening := hw.balanced.opening_of_closing hclosing
    exact (hw.balanced.mem_openBefore_iff hopening _).mpr
      ⟨Nat.lt_of_lt_of_le hlt hplace.marker_ge, hle⟩

end Wrapper

/-! ## 2. What the first part hands over -/

namespace Component

variable {c : Component ω δ} {data : δ} {s₀ s s' : Session ω} {skip : Skip} {opened : List Nat}
  {outcome : Outcome ω} {content? : Option Place} {place : Place} {cur cur₁ : Cursor ω}
  {s₁ : Session ω} {m : Marker ω δ} {opening : Nat}

/-- Rendering a component runs what its walk hands over. -/
theorem render_of_run (h : c.run data c.entry s = .ok (outcome, s')) :
    c.render data s = runEndings outcome.carried s' := by
  rw [render, bind_of_ok h]
  cases outcome <;> rfl

/-- At its end a walk hands over the endings of the wrappers that are open there. -/
theorem exists_frames_of_finished {carried : List (Ending ω)} (hw : c.WellFormed content?)
    (h : c.run data c.entry s₀ = .ok (.finished carried, s')) :
    ∃ frames, carried = frames.flatten ∧
      List.Forall₂ (c.Registers data s₀) (c.opened c.exit.marker) frames := by
  obtain ⟨-, ⟨⟩, -⟩ | ⟨hs, stack, hwalk⟩ := run_eq_ok h
  obtain ⟨cur, s, hreach, hstep⟩ := exists_stop_of_loop hwalk
  have hv : c.Visits data s₀ cur s := ⟨hs, hreach⟩
  have ht := hv.tracked hw
  have htrans := transition_of_step hv.running hstep
  generalize hn : Next.stop (.finished carried) stack = next at htrans
  cases htrans with
  | jump | jumpOut | dropElement | elementOut | contentOut | endBefore => cases hn
  | plain | inTag | wrapperStart | dropContent | wrapperEnd =>
    unfold settled at hn
    split at hn <;> cases hn
  | finish hexits =>
    cases hn
    obtain ⟨rfl, -⟩ := Template.advance_eq_ok hexits.run_eq
    obtain ⟨frames, hf, hr⟩ := ht.frames
    have hmarker : cur.marker = c.exit.marker :=
      Nat.le_antisymm ht.placed.marker_le hexits.marker_ge
    have hf' : Cursor.Holding { cur with offset := c.exit.offset } frames := hf.congr rfl rfl
    exact ⟨frames, hf'.pending_eq, hmarker ▸ hr⟩

/-- The wrappers that are open where something is dropped are those that are open behind it. -/
theorem Executes.opened_target (h : c.Executes data s₀ skip opened) (hw : c.WellFormed content?)
    (htarget : skip.target? c.template = some place) : c.opened place.marker = opened := by
  cases h with
  | wrapperContent hv hcalls =>
    obtain ⟨n, hn, rfl⟩ := Option.map_eq_some_iff.mp htarget
    have hp := (hv.tracked hw).placed
    obtain ⟨-, hopen, -⟩ := hcalls.stands_end hw hp hn
    obtain ⟨ha, hm, -, -⟩ := hcalls
    rw [opened_succ_of_start hp.entry_le ha.marker_eq hm, opened_cons hp.entry_le hopen, opened]
  | element hv hcalls =>
    obtain ⟨e, he, rfl⟩ := Option.map_eq_some_iff.mp htarget
    cases he.symm.trans hcalls.element_eq
    obtain ⟨ha, hm, -, -⟩ := hcalls
    have hstands := ha.stands hw (hv.tracked hw).placed
    obtain ⟨hin, -, -⟩ := hstands.inTag hw hm he
    exact ha.marker_cursor ▸ opened_congr (hin.openBefore_nextMarker hw hstands.toHolds)
  | elementContent hasked he hv hj =>
    obtain ⟨e, he', rfl⟩ := Option.map_eq_some_iff.mp htarget
    obtain rfl := Option.some.inj (he'.symm.trans he)
    have hp := (hv.tracked hw).placed
    -- The jump is that over the element in whose start tag the cursor stands.
    obtain ⟨other, e', hin, -, hjump⟩ := hp.jump _ hj.jump_eq
    have hnext : e.nextMarker = e'.nextMarker := congrArg (·.target.marker) hjump
    exact (congrArg c.opened hnext).trans (opened_congr (hin.openBefore_nextMarker hw hp))

/-- Only the part before the content marker hands over endings. -/
theorem carried_eq_nil (hpart : c.part ≠ .preContent) (h : c.run data place s = .ok (outcome, s')) :
    outcome.carried = [] := by
  have hnone : ∀ cur : Cursor ω, c.HandsOver cur → cur.pending = [] := by
    intro cur hover
    rw [Cursor.pending, hover.resolve_right hpart]
    rfl
  obtain ⟨-, rfl, -⟩ | ⟨hs, stack, hwalk⟩ := run_eq_ok h
  · rfl
  obtain ⟨cur, s, hreach, hstep⟩ := exists_stop_of_loop hwalk
  have htrans := transition_of_step (hreach.running hs) hstep
  generalize hn : Next.stop outcome stack = next at htrans
  cases htrans with
  | jump | dropElement | endBefore => cases hn
  | plain | inTag | wrapperStart | dropContent | wrapperEnd =>
    unfold settled at hn
    split at hn <;> cases hn
    rfl
  | jumpOut _ _ hover | contentOut _ _ _ _ _ hover | finish _ hover =>
    cases hn
    exact hnone _ hover
  | elementOut _ _ _ _ hdrops =>
    cases hn
    exact hnone _ (.inr hdrops.1)

/-! ## 3. Ends of wrappers in the second part -/

/-- At the end of a wrapper that begins before the component only literal bytes are written. -/
theorem step_of_endBefore (ha : c.Arrives cur s m cur₁ s₁) (hs : s.response.halted = false)
    (hm : m.action = .wrapperEnd opening) (hlt : opening < c.entry.marker) :
    c.step data cur s = .ok (.goto cur₁.next, s₁) :=
  (Transition.endBefore ha hm hlt).step_eq hs

/-- At the end of any other one the endings run that its start has registered. -/
theorem step_of_end (hv : c.Visits data s₀ cur s) (hw : c.WellFormed content?)
    (ha : c.Arrives cur s m cur₁ s₁) (hm : m.action = .wrapperEnd opening)
    (hle : c.entry.marker ≤ opening) :
    ∃ depth endings, c.Registers data s₀ opening endings ∧
      c.step data cur s = (do runEndings endings; proceed (cur₁.leave depth)) s₁ := by
  have ht := hv.tracked hw
  have hstands := ha.stands hw ht.placed
  obtain ⟨frames, hf, hr⟩ := ha.frames ht
  rw [show c.opened cur₁.marker = _ from hstands.opened_of_end hw hm hle] at hr
  cases hr with
  | @cons _ endings _ rest hreg =>
    have hd : cur₁.depth = rest.length + 1 := hf.depth_eq
    refine ⟨rest.length, endings, hreg, ?_⟩
    rw [ha.step_eq hv.running, act, hm]
    simp only
    rw [if_pos hle, closeWrapper_of_depth hd, bind_of_ok (frame_eq_ok.mpr ⟨hf.frame?_eq hd, rfl⟩)]

end Component

/-! ## 4. The parts of a wrapper -/

namespace Wrapper

variable {w : Wrapper ω δ} {data : δ} {s t : Session ω} {outcome : Outcome ω}

/-- The frames hold the endings that the straddling wrappers have registered, those of the
innermost wrapper first. -/
def StraddlingFrames (w : Wrapper ω δ) (data : δ) (s : Session ω) (place : Place)
    (frames : List (List (Ending ω))) : Prop :=
  ∃ opened : List Nat, opened.Pairwise (· > ·) ∧ (∀ i, i ∈ opened ↔ w.Straddles place i) ∧
    List.Forall₂ (w.preContent.Registers data s) opened frames

theorem opened_preContent (w : Wrapper ω δ) (k : Nat) :
    w.preContent.opened k = openBefore w.template.markers k :=
  List.filter_eq_self.mpr fun _ _ => decide_eq_true (Nat.zero_le _)

theorem straddlingFrames_of_opened {place : Place} {frames : List (List (Ending ω))}
    (hw : w.WellFormed) (hplace : w.template.Resumable w.content place)
    (hr : List.Forall₂ (w.preContent.Registers data s) (w.preContent.opened place.marker) frames) :
    w.StraddlingFrames data s place frames :=
  ⟨_, pairwise_openBefore _ _, fun _ => mem_openBefore_iff hw hplace, w.opened_preContent _ ▸ hr⟩

/-- The second part runs no endings of wrappers that straddle the content marker. -/
structure LeavesStraddling (w : Wrapper ω δ) (data : δ) (s₀ : Session ω) : Prop where
  /-- Where such a wrapper ends, only literal bytes are written. -/
  atStraddling : ∀ {cur s m cur₁ s₁ opening}, w.postContent.Visits data s₀ cur s →
    w.postContent.Arrives cur s m cur₁ s₁ → m.action = .wrapperEnd opening →
    w.Straddles w.content opening → w.postContent.step data cur s = .ok (.goto cur₁.next, s₁)
  /-- Where another one ends, the endings run that its own start has registered. -/
  atEnd : ∀ {cur s m cur₁ s₁ opening}, w.postContent.Visits data s₀ cur s →
    w.postContent.Arrives cur s m cur₁ s₁ → m.action = .wrapperEnd opening →
    ¬w.Straddles w.content opening → ∃ depth endings,
      w.postContent.Registers data s₀ opening endings ∧
        w.postContent.step data cur s =
          (do runEndings endings; Component.proceed (cur₁.leave depth)) s₁
  /-- So do those of a wrapper whose content is dropped. -/
  atStart : ∀ {cur s closing? cur₁ scope s₁}, w.postContent.Visits data s₀ cur s →
    w.postContent.CallsAtStart data cur s closing? cur₁ scope s₁ →
    w.postContent.Registers data s₀ cur.marker scope.endings
  /-- No start that registers endings in this part is that of a straddling wrapper. -/
  registers : ∀ {i endings}, w.postContent.Registers data s₀ i endings →
    ¬w.Straddles w.content i
  /-- No endings are left at the end. -/
  atExit : ∀ {outcome s'}, w.postContent.run data w.content s₀ = .ok (outcome, s') →
    outcome.carried = []

theorem leavesStraddling (hw : w.WellFormed) (data : δ) (s₀ : Session ω) :
    w.LeavesStraddling data s₀ where
  atStraddling hv ha hm hstraddles :=
    Component.step_of_endBefore ha hv.running hm hstraddles.1
  atEnd {cur s m cur₁ s₁ opening} hv ha hm hnot := by
    have hp := (hv.tracked hw.postContent).placed
    refine Component.step_of_end hv hw.postContent ha hm (Nat.le_of_not_lt fun hlt => hnot ?_)
    exact ⟨hlt, cur.marker, (hw.balanced.closingAt?_eq_some_iff hw.complete).mpr
      (openingAt?_eq_some.mpr ⟨m, ha.marker_eq, hm⟩), hp.entry_le⟩
  atStart hv hcalls := hcalls.registers hv (hv.tracked hw.postContent)
  registers hreg hstraddles := by
    obtain ⟨hv, -, -, -⟩ := hreg
    exact Nat.not_lt_of_le (hv.tracked hw.postContent).placed.entry_le hstraddles.1
  atExit hrun := Component.carried_eq_nil (by rintro ⟨⟩) hrun

/-- The second part by itself is rendered like the one behind a payload. -/
theorem render_postContent (w : Wrapper ω δ) (data : δ) :
    w.postContent.render data = w.renderPost data w.content := by
  funext s
  refine bind_congr_of_ok fun outcome s' hrun => ?_
  have hnil := Component.carried_eq_nil (c := w.postContent) (by rintro ⟨⟩) hrun
  cases outcome with
  | halted => rfl
  | finished carried | swallowed resume carried =>
    cases hnil
    rfl

section Compiled

variable {source : String} {declarations : List (Declaration ω δ)}
  (h : Wrapper.compile source declarations = .ok w)
include h

/-- The first part hands over the endings of the straddling wrappers that are open where it
ends, unless the response is halted. -/
theorem carried_of_before (hrun : w.before data s = .ok (outcome, t))
    (ht : t.response.halted = false) : ∃ place frames, w.StraddlingFrames data s place frames ∧
      ((outcome = .finished frames.flatten ∧ place = w.content) ∨
        outcome = .swallowed place frames.flatten) := by
  have hw := wellFormed_of_compile h
  cases outcome with
  | halted => cases ht.symm.trans ((Component.halted_iff_of_run hrun).mp rfl)
  | finished carried =>
    obtain ⟨frames, rfl, hr⟩ := Component.exists_frames_of_finished hw.preContent hrun
    exact ⟨w.content, frames, straddlingFrames_of_opened hw hw.resumable_content hr,
      .inl ⟨rfl, rfl⟩⟩
  | swallowed resume carried =>
    obtain ⟨skip, opened, hskip, hcov⟩ :=
      Component.exists_executes_of_run (classified_of_compile h) hrun
    obtain ⟨resume', frames, t', hrun', hleads, hr⟩ := before_of_executes h hskip hcov
    cases hrun.symm.trans hrun'
    obtain rfl := hskip.opened_target hw.preContent hleads.target_eq
    exact ⟨resume, frames, straddlingFrames_of_opened hw hleads.resumable hr, .inr rfl⟩

/-- Where no wrapper straddles the content marker, nothing is handed over. -/
theorem before_of_apart (hnone : ∀ i, ¬w.Straddles w.content i)
    (hskip : ∀ skip opened, w.preContent.Executes data s skip opened →
      ¬skip.Covers w.template w.content)
    (hrun : w.before data s = .ok (outcome, t)) (ht : t.response.halted = false) :
    outcome = .finished [] := by
  obtain ⟨place, frames, ⟨opened, -, hmem, hr⟩, ⟨rfl, rfl⟩ | rfl⟩ := carried_of_before h hrun ht
  · obtain rfl : opened = [] := List.eq_nil_iff_forall_not_mem.mpr fun i hi =>
      hnone i ((hmem i).mp hi)
    cases hr
    rfl
  · obtain ⟨skip, opened, hexecutes, hcov⟩ :=
      Component.exists_executes_of_run (classified_of_compile h) hrun
    exact absurd hcov (hskip skip opened hexecutes)

/-- Then the parts one after the other do what the wrapper does. -/
theorem parts_eq_render (hnone : ∀ i, ¬w.Straddles w.content i)
    (hhalt : ∀ s', w.preContent.render data s = .ok ((), s') → s'.response.halted = false)
    (hskip : ∀ skip opened, w.preContent.Executes data s skip opened →
      ¬skip.Covers w.template w.content) (payload : Render ω Unit) :
    (do w.preContent.render data; payload; w.postContent.render data) s =
      w.render data payload s := by
  cases hrun : w.before data s with
  | error fault => exact (bind_of_error (bind_of_error hrun)).trans (bind_of_error hrun).symm
  | ok p =>
    obtain ⟨outcome, t⟩ := p
    have hrender := Component.render_of_run hrun
    cases ht : t.response.halted with
    | true =>
      cases (Component.halted_iff_of_run hrun).mpr ht
      cases ht.symm.trans (hhalt t hrender)
    | false =>
      cases before_of_apart h hnone hskip hrun ht
      have hrest : w.render data payload s = (do payload; w.renderPost data w.content) t :=
        bind_of_ok hrun
      rw [bind_of_ok hrender, render_postContent, hrest]

end Compiled

/-- The parts of a compiled wrapper by themselves. If no wrapper straddles the content marker,
and the first part neither halts the response nor drops the content marker, then rendering both
parts with any payload in between is rendering the wrapper around it: the output, the status, the
target, and whatever callbacks note in the world on their way are the same. In any case the first
part, unless it is halted before, runs exactly the endings of the straddling wrappers at its end,
from the inside out; in the wrapper these run behind the payload. The second part runs none of
them. -/
theorem parts_of_compile {source : String} {declarations : List (Declaration ω δ)}
    (h : Wrapper.compile source declarations = .ok w) (data : δ) (s : Session ω) :
    ((∀ i, ¬w.Straddles w.content i) →
      (∀ s', w.preContent.render data s = .ok ((), s') → s'.response.halted = false) →
      (∀ skip opened, w.preContent.Executes data s skip opened →
        ¬skip.Covers w.template w.content) →
      ∀ payload : Render ω Unit,
        (do w.preContent.render data; payload; w.postContent.render data) s =
          w.render data payload s) ∧
    (∀ outcome t, w.before data s = .ok (outcome, t) → t.response.halted = false →
      ∃ place frames, w.StraddlingFrames data s place frames ∧
        w.preContent.render data s = runEndings frames.flatten t ∧
        ((∀ skip opened, w.preContent.Executes data s skip opened →
          ¬skip.Covers w.template w.content) → place = w.content ∧
          ∀ payload, w.render data payload s = (do
            payload
            runEndings frames.flatten
            w.renderPost data w.content) t)) ∧
    w.LeavesStraddling data s := by
  refine ⟨parts_eq_render h, fun outcome t hrun ht => ?_,
    leavesStraddling (wellFormed_of_compile h) data s⟩
  obtain ⟨place, frames, hframes, hends⟩ := carried_of_before h hrun ht
  refine ⟨place, frames, hframes, ?_, fun hskip => ?_⟩
  · rw [Component.render_of_run hrun]
    rcases hends with ⟨rfl, -⟩ | rfl <;> rfl
  · rcases hends with ⟨rfl, rfl⟩ | rfl
    · exact ⟨rfl, fun payload => bind_of_ok hrun⟩
    · obtain ⟨skip, opened, hexecutes, hcov⟩ :=
        Component.exists_executes_of_run (classified_of_compile h) hrun
      exact absurd hcov (hskip skip opened hexecutes)

end Wrapper

/-- The source `${{inner}x}}y${}z`. -/
def frameBeforeSource : String := "$\x7b\x7binner\x7dx\x7d\x7dy$\x7b\x7dz"

/-- A frame that drops its content and stands before the content marker. -/
def frameBeforeWrapper : Wrapper (List String) Unit where
  template :=
    { html := "xyz".toUTF8
      markers := #[
        { name := "inner", span := { start := 0, stop := 0 }
          action := .wrapperStart (fun _ => droppingFrame false) (some 1) },
        { name := "inner", span := { start := 0, stop := 1 }, action := .wrapperEnd 0 }]
      elements := #[] }
  content := { marker := 2, offset := 2 }
  maxNesting := 1

theorem compile_frameBefore :
    Wrapper.compile frameBeforeSource [.wrapper "inner" fun _ => droppingFrame false] =
      .ok frameBeforeWrapper := by
  with_unfolding_all rfl

/-- The source `${{outer}x${}y}}`. -/
def frameAroundSource : String := "$\x7b\x7bouter\x7dx$\x7b\x7dy\x7d\x7d"

/-- A frame with an ending, around the content marker. -/
def frameAroundWrapper : Wrapper (List String) Unit where
  template :=
    { html := "xy".toUTF8
      markers := #[
        { name := "outer", span := { start := 0, stop := 0 }
          action := .wrapperStart
            (fun _ => WrapperRender.addEnding (loggingEnding "outer" false)) (some 1) },
        { name := "outer", span := { start := 0, stop := 2 }, action := .wrapperEnd 0 }]
      elements := #[] }
  content := { marker := 1, offset := 1 }
  maxNesting := 1

theorem compile_frameAround :
    Wrapper.compile frameAroundSource
        [.wrapper "outer" fun _ => WrapperRender.addEnding (loggingEnding "outer" false)] =
      .ok frameAroundWrapper := by
  with_unfolding_all rfl

/-- The parts around a frame that has been dropped before the content marker, and those inside of
a frame. -/
theorem Wrapper.parts_of_frames :
    (∀ payload : Render (List String) Unit,
      (do frameBeforeWrapper.preContent.render ()
          payload
          frameBeforeWrapper.postContent.render ()) (.fresh []) =
        frameBeforeWrapper.render () payload (.fresh [])) ∧
      ∃ t frames, frameAroundWrapper.StraddlingFrames () (.fresh []) frameAroundWrapper.content
          frames ∧
        frameAroundWrapper.preContent.render () (.fresh []) = runEndings frames.flatten t ∧
        t.world = [] := by
  obtain ⟨hparts, -, -⟩ := Wrapper.parts_of_compile compile_frameBefore () (.fresh [])
  obtain ⟨-, hframes, -⟩ := Wrapper.parts_of_compile compile_frameAround () (.fresh [])
  constructor
  · have hnone : ∀ i, ¬frameBeforeWrapper.Straddles frameBeforeWrapper.content i := by
      rintro i ⟨hlt, closing, hclosing, hle⟩
      have hi : i = 0 ∨ i = 1 := by
        have hlt : i < 2 := hlt
        omega
      rcases hi with rfl | rfl <;> cases hclosing
      exact absurd hle (by decide)
    refine hparts hnone ?_ ?_
    · have hrun : frameBeforeWrapper.preContent.render () (.fresh []) =
          .ok ((), { response := { output := "y".toUTF8 }, world := ["inner"] }) := by
        with_unfolding_all rfl
      intro s' hs'
      cases hrun.symm.trans hs'
      rfl
    · intro skip opened hskip hcov
      cases hskip with
      | wrapperContent hv hcalls =>
        obtain ⟨ha, hm, -, -⟩ := hcalls
        exact hnone _ ⟨hcov.1, _, closingAt?_eq_some.mpr ⟨_, _, ha.marker_eq, hm⟩, hcov.2⟩
      | element | elementContent => obtain ⟨e, ⟨⟩, -⟩ := hcov
  · have hrun : frameAroundWrapper.before () (.fresh []) =
        .ok (.finished [loggingEnding "outer" false],
          { response := { output := "x".toUTF8 }, world := [] }) := by
      with_unfolding_all rfl
    obtain ⟨place, frames, hstraddling, hrender, hplace⟩ := hframes _ _ hrun rfl
    have hskip : ∀ skip opened,
        frameAroundWrapper.preContent.Executes () (.fresh []) skip opened →
          ¬skip.Covers frameAroundWrapper.template frameAroundWrapper.content := by
      intro skip opened hskip hcov
      cases hskip with
      | wrapperContent hv hcalls hs hk =>
        obtain ⟨ha, hm, -, hcallback⟩ := hcalls
        have hzero := ha.marker_eq
        rw [Nat.lt_one_iff.mp ha.marker_lt] at hzero
        cases hzero
        cases hm
        cases hcallback
        cases hk
      | element | elementContent => obtain ⟨e, ⟨⟩, -⟩ := hcov
    obtain ⟨rfl, -⟩ := hplace hskip
    exact ⟨_, frames, hstraddling, hrender, rfl⟩

end HtmlTemplate
