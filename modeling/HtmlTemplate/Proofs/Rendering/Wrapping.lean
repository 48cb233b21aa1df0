import HtmlTemplate.Proofs.Rendering.Around
import HtmlTemplate.Proofs.Rendering.Outcomes

/-!
# Wrapping from a callback

A wrapper can be rendered around a payload in two ways. `Wrapper.render` renders
the part behind the content marker when the payload has been rendered.
`WrapperRender.wrap` is called at a wrapper start and leaves that part to an
ending, so that several wrappers can be wrapped around the same content.

Both do the same: wrapping the content in one wrapper after the other is
rendering the wrappers inside each other.

Results:
1. `Layer.render_unlessHalted`: a wrapper does not get to its payload once the
   response is halted.
2. `Layer.wrapAll_eq_nested`: the endings registered at a wrapper start do what is left
   to be done around the content.
3. `Component.render_wrapAll`: a component that wraps its content in wrappers
   renders them inside each other.
-/

namespace HtmlTemplate

open Render

variable {ω δ : Type}

/-! ## 1. Wrappers inside each other -/

/-- A wrapper with the data that it is rendered with. -/
structure Layer (ω : Type) where
  {δ : Type}
  wrapper : Wrapper ω δ
  data : δ

namespace Layer

/-- Renders the part before the content marker. -/
def before (l : Layer ω) : Render ω (Outcome ω) :=
  l.wrapper.preContent.run l.data l.wrapper.preContent.entry

/-- Renders wrappers inside each other, the first one outside. -/
def nested : List (Layer ω) → Render ω Unit → Render ω Unit
  | [], payload => payload
  | l :: ls, payload => l.wrapper.render l.data (nested ls payload)

/-- Wraps the content of the wrapper marker at hand in wrappers, the first one
outside. -/
def wrapAll : List (Layer ω) → WrapperRender ω Unit
  | [] => pure ()
  | l :: ls => do
    WrapperRender.wrap l.wrapper l.data
    wrapAll ls

/-- None of the wrappers but the last one drops its content when they are rendered
inside each other from this session on. -/
def KeepContent : List (Layer ω) → Session ω → Prop
  | l :: next :: ls, s => ∀ outcome s', l.before s = .ok (outcome, s') →
    (∀ resume carried, outcome ≠ .swallowed resume carried) ∧ KeepContent (next :: ls) s'
  | _, _ => True

/-- Wrappers of which none drops its content may be rendered inside each other. -/
theorem keepContent_of_forall {ls : List (Layer ω)}
    (h : ∀ l ∈ ls, ∀ s outcome s', l.before s = .ok (outcome, s') →
      ∀ resume carried, outcome ≠ .swallowed resume carried) (s : Session ω) :
    KeepContent ls s := by
  induction ls generalizing s with
  | nil => trivial
  | cons l ls ih =>
    cases ls with
    | nil => trivial
    | cons next ls =>
      exact fun outcome s' hbefore => ⟨h l List.mem_cons_self s outcome s' hbefore,
        ih (fun l hl => h l (List.mem_cons_of_mem _ hl)) s'⟩

/-! ## 2. Halted responses -/

theorem idle_renderPost (w : Wrapper ω δ) (data : δ) (place : Place) :
    Idle (w.renderPost data place) := by
  intro s hs
  refine ⟨(), ?_⟩
  unfold Wrapper.renderPost
  rw [bind_of_ok (Component.run_of_halted _ data place hs)]
  rfl

theorem render_of_halted (l : Layer ω) (payload : Render ω Unit) {s : Session ω}
    (hs : s.response.halted = true) : l.wrapper.render l.data payload s = .ok ((), s) := by
  unfold Wrapper.render
  rw [bind_of_ok (Component.run_of_halted _ l.data _ hs)]
  rfl

/-- A wrapper does not get to its payload once the response is halted. -/
theorem render_unlessHalted (l : Layer ω) (payload : Render ω Unit) :
    l.wrapper.render l.data (unlessHalted payload) = l.wrapper.render l.data payload := by
  funext s
  refine bind_congr_of_ok ?_
  intro outcome s' hrun
  cases outcome with
  | halted => rfl
  | finished carried =>
    have hs : s'.response.halted = false := Component.ends_run _ _ _ s _ s' hrun
    exact bind_eq_of_eq (unlessHalted_of_running payload hs)
  | swallowed resume carried => rfl

theorem nested_unlessHalted {ls : List (Layer ω)} (h : ls ≠ []) (payload : Render ω Unit) :
    nested ls (unlessHalted payload) = nested ls payload := by
  induction ls with
  | nil => exact absurd rfl h
  | cons l ls ih =>
    cases ls with
    | nil => exact render_unlessHalted l payload
    | cons next ls =>
      unfold nested
      rw [ih (List.cons_ne_nil _ _)]

/-- What the callback asks for when it wraps the content. -/
def scopeAfter (l : Layer ω) (scope : WrapperScope ω) : Outcome ω → WrapperScope ω
  | .halted => scope
  | .finished carried =>
    { scope with
      endings := carried ++ l.wrapper.renderPost l.data l.wrapper.content :: scope.endings }
  | .swallowed resume carried =>
    { skipContent := true
      endings := carried ++ l.wrapper.renderPost l.data resume :: scope.endings }

theorem wrap_run (l : Layer ω) (scope : WrapperScope ω) :
    (WrapperRender.wrap l.wrapper l.data).run scope =
      (do let outcome ← l.before; return ((), l.scopeAfter scope outcome)) := by
  unfold WrapperRender.wrap
  rw [StateT.run_bind, StateT.run_lift, bind_assoc]
  refine congrArg (l.before >>= ·) (funext fun outcome => ?_)
  cases outcome <;> rfl

theorem wrap_of_halted (l : Layer ω) (scope : WrapperScope ω) {s : Session ω}
    (hs : s.response.halted = true) :
    (WrapperRender.wrap l.wrapper l.data).run scope s = .ok (((), scope), s) := by
  have hbefore : l.before s = .ok (.halted, s) := Component.run_of_halted _ l.data _ hs
  rw [wrap_run, bind_of_ok hbefore]
  rfl

theorem wrapAll_of_halted (ls : List (Layer ω)) (scope : WrapperScope ω) {s : Session ω}
    (hs : s.response.halted = true) : (wrapAll ls).run scope s = .ok (((), scope), s) := by
  induction ls with
  | nil => rfl
  | cons l ls ih =>
    unfold wrapAll
    rw [StateT.run_bind, bind_of_ok (wrap_of_halted l scope hs)]
    exact ih

/-! ## 3. Endings -/

/-- An ending that checks for a halted response itself may be run by itself. -/
theorem runEndings_cons_of_idle {ending : Ending ω} (h : Idle ending) (rest : List (Ending ω)) :
    runEndings (ending :: rest) = (do ending; runEndings rest) := by
  funext s
  rw [runEndings_cons]
  cases hs : s.response.halted with
  | true =>
    rw [unlessHalted_of_halted _ hs, bind_of_ok (h.run_unit hs), (idle_runEndings rest).run_unit hs]
  | false => rw [unlessHalted_of_running _ hs]

/-- The endings that a wrapper registers are what is left to be done when the payload
has been rendered. -/
theorem runEndings_deferred (l : Layer ω) (place : Place) (carried endings : List (Ending ω)) :
    runEndings (carried ++ l.wrapper.renderPost l.data place :: endings) = (do
      runEndings carried
      l.wrapper.renderPost l.data place
      runEndings endings) := by
  rw [runEndings_append, runEndings_cons_of_idle (idle_renderPost _ _ _)]

theorem KeepContent.tail {l : Layer ω} {ls : List (Layer ω)} {s s' : Session ω}
    {outcome : Outcome ω} (h : KeepContent (l :: ls) s) (hbefore : l.before s = .ok (outcome, s')) :
    KeepContent ls s' := by
  cases ls with
  | nil => trivial
  | cons next ls => exact (h outcome s' hbefore).2

/-- Only the last wrapper may drop its content. -/
theorem KeepContent.eq_nil {l : Layer ω} {ls : List (Layer ω)} {s s' : Session ω} {resume : Place}
    {carried : List (Ending ω)} (h : KeepContent (l :: ls) s)
    (hbefore : l.before s = .ok (.swallowed resume carried, s')) : ls = [] := by
  cases ls with
  | nil => rfl
  | cons next ls => exact absurd rfl ((h _ s' hbefore).1 resume carried)

/-- Wrapping the content in wrappers, and then evaluating the content and the endings,
is rendering the wrappers inside each other around the content. -/
theorem wrapAll_eq_nested (ls : List (Layer ω)) (payload : Render ω Unit)
    (scope : WrapperScope ω) (hskip : scope.skipContent = false) (s : Session ω)
    (hs : KeepContent ls s) :
    ((wrapAll ls).run scope >>= fun p => Outline.evalScope p.2 (unlessHalted payload)) s =
      (do nested ls (unlessHalted payload); runEndings scope.endings) s := by
  induction ls generalizing scope s with
  | nil => simp [wrapAll, nested, Outline.evalScope, hskip]
  | cons l ls ih =>
    unfold wrapAll nested Wrapper.render
    rw [StateT.run_bind, wrap_run]
    simp only [bind_assoc, pure_bind]
    refine bind_congr_of_ok ?_
    intro outcome s' hrun
    cases outcome with
    | halted =>
      have hh : s'.response.halted = true := Component.ends_run _ _ _ s _ s' hrun
      have hscope := Outline.idle_evalScope scope (idle_unlessHalted payload)
      rw [bind_of_ok (wrapAll_of_halted ls _ hh)]
      exact (hscope.run_unit hh).trans ((idle_runEndings _).run_unit hh).symm
    | finished carried =>
      rw [ih (l.scopeAfter scope (.finished carried)) hskip s' (hs.tail hrun)]
      simp only [scopeAfter, runEndings_deferred, bind_assoc]
    | swallowed resume carried =>
      cases hs.eq_nil hrun
      simp [wrapAll, scopeAfter, Outline.evalScope, runEndings_deferred]

end Layer

/-! ## 4. The component that wraps its content -/

section Component

open Outline

variable (atStart : δ → WrapperRender ω Unit) (content : δ → Render ω Unit)

/-- The source `${{m}${x}}}`. -/
def wrappingSource : String := "$\x7b\x7bm\x7d$\x7bx\x7d\x7d\x7d"

/-- Its declarations: what is done at the wrapper start, and the content. -/
def wrapping : List (Declaration ω δ) := [.wrapper "m" atStart, .plain "x" content]

theorem exists_compile_wrapping :
    ∃ c, Component.compile wrappingSource (wrapping atStart content) = .ok c :=
  exists_eq_ok (by with_unfolding_all rfl)

theorem ofSource?_wrapping :
    ofSource? wrappingSource (wrapping atStart content) =
      some (.text "" (.wrapper atStart (.text "" (.plain content .stop)) .stop)) := by
  with_unfolding_all rfl

theorem eval_wrapping (data : δ) {s : Session ω} (hs : s.response.halted = false) :
    (Outline.text "" (.wrapper atStart (.text "" (.plain content .stop)) .stop)).eval data s =
      evalWrapper (atStart data) (unlessHalted (content data)) s := by
  simp only [eval, writeRaw_empty, pure_bind, bind_pure_unit]
  exact unlessHalted_of_running _ hs

end Component

/-- A component whose wrapper marker wraps its content in wrappers renders them inside
each other around the content. -/
theorem Component.render_wrapAll (ls : List (Layer ω)) (hne : ls ≠ []) (payload : Render ω Unit) :
    ∃ c : Component ω δ,
      Component.compile wrappingSource (wrapping (fun _ => Layer.wrapAll ls) fun _ => payload) =
        .ok c ∧
      ∀ data s, Layer.KeepContent ls s → c.render data s = Layer.nested ls payload s := by
  obtain ⟨c, hc⟩ := exists_compile_wrapping (δ := δ) (fun _ => Layer.wrapAll ls) fun _ => payload
  obtain ⟨o, ho, hl⟩ := Component.laidOut_of_compile hc
  rw [ofSource?_wrapping] at ho
  cases ho
  refine ⟨c, hc, fun data s hkeep => ?_⟩
  rw [Component.render_of_laidOut hl ⟨trivial, trivial, trivial⟩]
  cases hs : s.response.halted with
  | true =>
    obtain ⟨l, ls, rfl⟩ := List.exists_cons_of_ne_nil hne
    rw [(Outline.idle_eval data _).run_unit hs]
    exact (Layer.render_of_halted l _ hs).symm
  | false =>
    rw [eval_wrapping _ _ data hs]
    have hwrap := Layer.wrapAll_eq_nested ls payload {} rfl s hkeep
    rw [Layer.nested_unlessHalted hne] at hwrap
    exact hwrap.trans (congrFun (bind_pure_unit (x := Layer.nested ls payload)) s)

/-- The source `<div>${}</div>`. -/
def outerFrameSource : String := "<div>$\x7b\x7d</div>"

/-- The source `<h1>${title}</h1>${}`. -/
def innerFrameSource : String := "<h1>$\x7btitle\x7d</h1>$\x7b\x7d"

/-- Its declarations: a title. -/
def innerFrame : List (Declaration Unit String) :=
  [.plain "title" fun title => Render.write title]

/-- Two frames, of which the inner one has a title, around a content. -/
theorem Component.render_wrapAll_of_frames :
    ∃ (inner outer : Wrapper Unit String) (c : Component Unit Unit),
      Wrapper.compile outerFrameSource [] = .ok outer ∧
      Wrapper.compile innerFrameSource innerFrame = .ok inner ∧
      Component.compile wrappingSource
        (wrapping (fun _ => Layer.wrapAll [⟨outer, ""⟩, ⟨inner, "Title"⟩])
          fun _ => Render.write "text") = .ok c ∧
      ∀ s, c.render () s =
        Layer.nested [⟨outer, ""⟩, ⟨inner, "Title"⟩] (Render.write "text") s := by
  obtain ⟨outer, houter⟩ : ∃ w : Wrapper Unit String, Wrapper.compile outerFrameSource [] = .ok w :=
    exists_eq_ok (by decide +kernel)
  obtain ⟨inner, hinner⟩ := exists_eq_ok
    (x := Wrapper.compile innerFrameSource innerFrame) (by decide +kernel)
  obtain ⟨c, hc, hrender⟩ := Component.render_wrapAll (δ := Unit) [⟨outer, ""⟩, ⟨inner, "Title"⟩]
    (List.cons_ne_nil _ _) (Render.write "text")
  refine ⟨inner, outer, c, houter, hinner, hc, fun s => hrender () s ?_⟩
  refine Layer.keepContent_of_forall (fun l hl s outcome s' hbefore => ?_) s
  rcases List.mem_cons.mp hl with rfl | hl
  · exact Wrapper.ne_swallowed_of_compile houter (fun d hd => absurd hd List.not_mem_nil)
      (fun d hd => absurd hd List.not_mem_nil) hbefore
  · cases List.mem_singleton.mp hl
    refine Wrapper.ne_swallowed_of_compile hinner ?_ ?_ hbefore
    · intro d hd run hrun
      cases List.mem_singleton.mp hd
      cases hrun
    · intro d hd run hrun
      cases List.mem_singleton.mp hd
      cases hrun

end HtmlTemplate
