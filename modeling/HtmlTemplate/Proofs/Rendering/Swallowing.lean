import Mathlib.Data.List.Forall2
import HtmlTemplate.Proofs.Rendering.Places
import HtmlTemplate.Proofs.Template.Enclosing

/-!
# Dropping the content marker

A callback before the content marker of a wrapper may ask to drop something that holds the
content marker: the content of a wrapper that ends behind it, an element around it, or the
content of such an element. Then the payload is not rendered. The endings of the wrappers
that are open are run from the inside out, until one of them halts the response, and the
part behind the content marker is rendered from the place behind what was dropped.

Results:
1. `Skip.Covers`, `Skip.LeadsTo`: whether the content marker is dropped, and where
   rendering goes on.
2. `Component.Executes`: what is dropped in a walk, and which wrappers are open then.
3. `Executes.run_eq`, `exists_executes_of_run`: the walk ends there exactly if the content
   marker is dropped.
4. `Wrapper.callsPayload_iff`, `Wrapper.payload_of_compile`: when the payload is rendered,
   and what is rendered if it is not.
-/

namespace HtmlTemplate

open Render

variable {ω δ : Type}

/-! ## 1. What may be dropped -/

/-- Something that a callback asks to drop. -/
inductive Skip where
  /-- The content of the wrapper with these indices of its start and end. -/
  | wrapperContent (opening closing : Nat)
  | element (index : Nat)
  | elementContent (index : Nat)
  deriving DecidableEq, Repr

namespace Skip

/-- The content marker at `x` is dropped. -/
def Covers (t : Template ω δ) (x : Place) : Skip → Prop
  | wrapperContent opening closing => opening < x.marker ∧ x.marker ≤ closing
  | element index | elementContent index =>
    ∃ e : Element, t.elements[index]? = some e ∧ e.Encloses x

/-- The place behind what is dropped. -/
def target? (t : Template ω δ) : Skip → Option Place
  | wrapperContent _ closing =>
    t.markers[closing]?.map fun n => { marker := closing, offset := n.position }
  | element index =>
    t.elements[index]?.map fun e => { marker := e.nextMarker, offset := e.closeEnd }
  | elementContent index =>
    t.elements[index]?.map fun e => { marker := e.nextMarker, offset := e.closeStart }

/-- The part behind the content marker `x` may be resumed at the place behind what is
dropped: no marker is dropped from there on, and all those before it are. -/
structure LeadsTo (skip : Skip) (t : Template ω δ) (x resume : Place) : Prop where
  target_eq : skip.target? t = some resume
  resumable : t.Resumable x resume
  behind : ∀ (i : Nat) (m : Marker ω δ), t.markers[i]? = some m → i < resume.marker →
    m.position ≤ resume.offset

end Skip

/-! ## 2. What is dropped in a walk -/

namespace Component

variable {c : Component ω δ} {data : δ} {cur cur₁ cur' : Cursor ω} {s₀ s s₁ s' : Session ω}
  {next : Next ω} {skip : Skip} {opened : List Nat} {outcome : Outcome ω}
  {stack : EndingStack (Ending ω)}

/-- A callback in the start tag of the element has asked to drop its content. -/
def Asked (c : Component ω δ) (data : δ) (s₀ : Session ω) (index : Nat) : Prop :=
  ∃ e cur s cur₁ scope s₁, c.Visits data s₀ cur s ∧
    c.CallsInTag data cur s index e cur₁ scope s₁ ∧ s₁.response.halted = false ∧
    scope.skipElement = false ∧ scope.skipContent = true

/-- The walk drops something while the given wrappers are open, the innermost one first. -/
inductive Executes (c : Component ω δ) (data : δ) (s₀ : Session ω) : Skip → List Nat → Prop
  /-- A callback at a wrapper start asks to drop the content of the wrapper. -/
  | wrapperContent {closing : Nat} {cur cur₁ : Cursor ω} {s s₁ : Session ω}
      {scope : WrapperScope ω} : c.Visits data s₀ cur s →
      c.CallsAtStart data cur s (some closing) cur₁ scope s₁ → s₁.response.halted = false →
      scope.skipContent = true →
      Executes c data s₀ (.wrapperContent cur.marker closing) (c.opened (cur.marker + 1))
  /-- A callback in a start tag asks to drop the element. -/
  | element {index : Nat} {e : Element} {cur cur₁ : Cursor ω} {s s₁ : Session ω}
      {scope : AttributeScope} : c.Visits data s₀ cur s →
      c.CallsInTag data cur s index e cur₁ scope s₁ → s₁.response.halted = false →
      scope.skipElement = true → Executes c data s₀ (.element index) (c.opened cur.marker)
  /-- The walk comes to the end of the start tag of an element whose content a callback has
  asked to drop. -/
  | elementContent {index : Nat} {e : Element} {cur cur₁ : Cursor ω} {s s₁ : Session ω} :
      c.Asked data s₀ index → c.template.elements[index]? = some e → c.Visits data s₀ cur s →
      c.Jumps cur s (c.jumpOver e) cur₁ s₁ →
      Executes c data s₀ (.elementContent index) (c.opened cur.marker)

/-- A jump that is planned is the one over the content of an element for which a callback
has asked. -/
def Planned (c : Component ω δ) (data : δ) (s₀ : Session ω) (cur : Cursor ω) : Prop :=
  ∀ jump, cur.jump = some jump → ∃ (index : Nat) (e : Element), c.Asked data s₀ index ∧
    c.template.elements[index]? = some e ∧ jump = c.jumpOver e

theorem Planned.congr (h : c.Planned data s₀ cur) (hj : cur'.jump = cur.jump) :
    c.Planned data s₀ cur' :=
  fun jump hjump => h jump (hj.symm.trans hjump)

theorem Planned.arrive {m : Marker ω δ} (h : c.Planned data s₀ cur)
    (ha : c.Arrives cur s m cur₁ s₁) : c.Planned data s₀ cur₁ := by
  obtain ⟨elements, tagMark, rfl⟩ := ha.cursor_eq
  exact h.congr rfl

theorem CallsInTag.planned {index : Nat} {e : Element} {scope : AttributeScope}
    (h : c.CallsInTag data cur s index e cur₁ scope s₁) (hv : c.Visits data s₀ cur s)
    (hs₁ : s₁.response.halted = false) (hk : scope.skipElement = false)
    (hp : c.Planned data s₀ cur) : c.Planned data s₀ (c.behindTag cur₁ e scope) := by
  have hcalls := h
  obtain ⟨ha, -, he, -⟩ := h
  have hnext : c.Planned data s₀ cur₁.next := (hp.arrive ha).congr rfl
  unfold behindTag
  split
  · next hc =>
    unfold planJump
    split
    · rintro jump ⟨⟩
      exact ⟨index, e, ⟨e, cur, s, cur₁, scope, s₁, hv, hcalls, hs₁, hk, hc⟩, he, rfl⟩
    · exact hnext
  · exact hnext

theorem Transition.planned (h : c.Transition data cur s (.goto cur') s')
    (hv : c.Visits data s₀ cur s) (hp : c.Planned data s₀ cur) : c.Planned data s₀ cur' := by
  have hnone : ∀ (cur : Cursor ω) (place : Place), c.Planned data s₀ (cur.moveTo place) := by
    intro cur place jump hj
    cases hj
  generalize hn : Next.goto cur' = next at h
  cases h with
  | jumpOut | elementOut | contentOut | finish => cases hn
  | jump | dropElement =>
    cases hn
    exact hnone _ _
  | plain ha =>
    obtain ⟨rfl, -⟩ := settled_eq_goto hn.symm
    exact (hp.arrive ha).congr rfl
  | inTag hcalls hkeep =>
    obtain ⟨rfl, hs'⟩ := settled_eq_goto hn.symm
    exact hcalls.planned hv hs' (hkeep hs') hp
  | wrapperStart hcalls | dropContent hcalls =>
    obtain ⟨rfl, -⟩ := settled_eq_goto hn.symm
    obtain ⟨ha, -, -, -⟩ := hcalls
    exact (hp.arrive ha).congr rfl
  | wrapperEnd ha =>
    obtain ⟨rfl, -⟩ := settled_eq_goto hn.symm
    exact (hp.arrive ha).congr rfl
  | endBefore ha =>
    cases hn
    exact (hp.arrive ha).congr rfl

theorem Visits.planned (h : c.Visits data s₀ cur s) : c.Planned data s₀ cur := by
  refine (h.2.invariant (fun cur _ => c.Planned data s₀ cur) h.1 ?_ ?_).2
  · intro jump hj
    cases hj
  · intro cur s cur' s' hreach _ hp htrans
    exact htrans.planned ⟨h.1, hreach⟩ hp

/-! ## 3. Where the walk ends -/

/-- Each element says of itself rightly whether it holds the content marker. -/
def Classified (c : Component ω δ) : Prop :=
  ∀ (index : Nat) (e : Element), c.template.elements[index]? = some e →
    (e.containsContent = true ↔ e.Encloses c.exit)

/-- The walk has dropped the content marker: it ends here, and hands over the endings that
were registered for the open wrappers. -/
structure Swallows (c : Component ω δ) (data : δ) (s₀ : Session ω) (skip : Skip)
    (opened : List Nat) (next : Next ω) (s' : Session ω) : Prop where
  running : s'.response.halted = false
  leads : ∃ resume frames stack, next = .stop (.swallowed resume frames.flatten) stack ∧
    skip.LeadsTo c.template c.exit resume ∧
    List.Forall₂ (c.Registers data s₀) opened frames

variable (hw : c.WellFormed (some c.exit)) (hpart : c.part = .preContent) (hc : c.Classified)
include hw hpart

/-- Behind an element around the content marker. -/
theorem leadsTo_of_element {index : Nat} {e : Element} (hin : c.InTag cur.place index e)
    (h : c.Holds cur) (he : e.containsContent = true) {offset : Nat} (hs : e.closeStart ≤ offset)
    (ho : offset ≤ e.closeEnd)
    (ht : skip.target? c.template = some { marker := e.nextMarker, offset := offset }) :
    skip.LeadsTo c.template c.exit { marker := e.nextMarker, offset := offset } := by
  refine ⟨ht, hin.resumable hw h hpart he hs ho, fun i m hm hi => ?_⟩
  exact Nat.le_trans ((hw.closed index e hin.element).within i m hm hi) hs

theorem swallows_wrapperContent {closing : Nat} {scope : WrapperScope ω}
    (hv : c.Visits data s₀ cur s) (hcalls : c.CallsAtStart data cur s (some closing) cur₁ scope s₁)
    (hs₁ : s₁.response.halted = false) (hk : scope.skipContent = true)
    (hle : c.exit.marker ≤ closing) :
    ∃ next, c.Transition data cur s next s₁ ∧
      c.Swallows data s₀ (.wrapperContent cur.marker closing) (c.opened (cur.marker + 1)) next
        s₁ := by
  have ht := hv.tracked hw
  obtain ⟨frames, hf, hr⟩ := hcalls.frames hw hv ht
  have hcalls' := hcalls
  obtain ⟨ha, hm, -, -⟩ := hcalls'
  obtain ⟨j, n, hj, hn, -, hopen⟩ := hw.exists_end ha.marker_eq hm
  cases hj
  refine ⟨_, .contentOut hcalls hs₁ hk hn hle (.inr hpart), hs₁, _, frames, _,
    congrArg (Next.stop · _) (congrArg (Outcome.swallowed _) hf.pending_eq), ?_, hr⟩
  refine ⟨by simp [Skip.target?, hn], hw.resumable_of_end ha.marker_lt hle hn hopen, ?_⟩
  exact fun i m hm hi => hw.ordered.position_mono i closing m n (Nat.le_of_lt hi) hm hn

theorem swallows_element {index : Nat} {e : Element} {scope : AttributeScope}
    (hv : c.Visits data s₀ cur s) (hcalls : c.CallsInTag data cur s index e cur₁ scope s₁)
    (hs₁ : s₁.response.halted = false) (hk : scope.skipElement = true)
    (he : e.containsContent = true) :
    ∃ next s', c.Transition data cur s next s' ∧
      c.Swallows data s₀ (.element index) (c.opened cur.marker) next s' := by
  have ht := hv.tracked hw
  obtain ⟨s', hcut⟩ := exists_cutsBack cur₁ e s₁
  have htrans := Transition.elementOut hcalls hs₁ hk hcut ⟨hpart, he⟩
  refine ⟨_, s', htrans, ?_⟩
  obtain ⟨ha, hm, helement, -⟩ := hcalls
  obtain ⟨frames, hf, hr⟩ := ha.frames ht
  have hstands := ha.stands hw ht.placed
  obtain ⟨hin, -, -⟩ := hstands.inTag hw hm helement
  have hclosed := hw.closed index e helement
  refine ⟨?_, _, frames, _,
    congrArg (Next.stop · _) (congrArg (Outcome.swallowed _) hf.pending_eq),
    leadsTo_of_element hw hpart hin hstands.toHolds he hclosed.closeStart_le (Nat.le_refl _)
      (by simp [Skip.target?, helement]), ha.marker_cursor ▸ hr⟩
  obtain ⟨size, -, rfl⟩ := hcut
  exact hs₁

theorem swallows_elementContent {index : Nat} {e : Element}
    (helement : c.template.elements[index]? = some e) (hv : c.Visits data s₀ cur s)
    (hj : c.Jumps cur s (c.jumpOver e) cur₁ s₁) (he : e.containsContent = true) :
    ∃ next, c.Transition data cur s next s₁ ∧
      c.Swallows data s₀ (.elementContent index) (c.opened cur.marker) next s₁ := by
  have ht := hv.tracked hw
  have hk : (c.jumpOver e).swallows = true := by simp [jumpOver, hpart, he]
  refine ⟨_, .jumpOut hj hk (.inr hpart), ?_⟩
  obtain ⟨rfl, hwrote⟩ := Template.advance_eq_ok hj.run_eq
  obtain ⟨frames, hf, hr⟩ := ht.frames
  -- The jump is that over the element in whose start tag the cursor stands.
  obtain ⟨other, e', hin, -, hjump⟩ := ht.placed.jump _ hj.jump_eq
  have he' : e'.containsContent = true := by
    have := congrArg Jump.swallows hjump
    rw [hk] at this
    simpa [jumpOver, hpart] using this.symm
  have htarget := congrArg Jump.target hjump
  have hskip : (Skip.elementContent index).target? c.template = some (c.jumpOver e).target := by
    simp [Skip.target?, helement, jumpOver]
  have hclosed := hw.closed other e' hin.element
  have hleads := leadsTo_of_element hw hpart hin ht.placed he' (Nat.le_refl _)
    hclosed.closeStart_le (hskip.trans (congrArg some htarget))
  have hf' : Cursor.Holding { cur with offset := (c.jumpOver e).start } frames := hf.congr rfl rfl
  exact ⟨hwrote.halted_eq.trans hv.running, _, frames, _,
    congrArg (Next.stop · _) (congrArg (Outcome.swallowed _) hf'.pending_eq),
    htarget ▸ hleads, hr⟩

include hc

/-- The walk ends where it drops the content marker. -/
theorem Executes.swallows (h : c.Executes data s₀ skip opened)
    (hcov : skip.Covers c.template c.exit) :
    ∃ cur s next s', c.Visits data s₀ cur s ∧ c.Transition data cur s next s' ∧
      c.Swallows data s₀ skip opened next s' := by
  cases h with
  | wrapperContent hv hcalls hs₁ hk =>
    obtain ⟨next, htrans, hswallows⟩ := swallows_wrapperContent hw hpart hv hcalls hs₁ hk hcov.2
    exact ⟨_, _, next, _, hv, htrans, hswallows⟩
  | element hv hcalls hs₁ hk =>
    have helement := hcalls.element_eq
    obtain ⟨e', he', hencloses⟩ := hcov
    cases helement.symm.trans he'
    obtain ⟨next, s', htrans, hswallows⟩ :=
      swallows_element hw hpart hv hcalls hs₁ hk ((hc _ _ he').mpr hencloses)
    exact ⟨_, _, next, s', hv, htrans, hswallows⟩
  | elementContent hasked helement hv hj =>
    obtain ⟨e', he', hencloses⟩ := hcov
    cases helement.symm.trans he'
    obtain ⟨next, htrans, hswallows⟩ :=
      swallows_elementContent hw hpart helement hv hj ((hc _ _ he').mpr hencloses)
    exact ⟨_, _, next, _, hv, htrans, hswallows⟩

/-- If the content marker is dropped, the run says where rendering goes on, and hands over
the endings of the open wrappers. -/
theorem Executes.run_eq (h : c.Executes data s₀ skip opened)
    (hcov : skip.Covers c.template c.exit) :
    ∃ resume frames s', c.run data c.entry s₀ = .ok (.swallowed resume frames.flatten, s') ∧
      skip.LeadsTo c.template c.exit resume ∧
      List.Forall₂ (c.Registers data s₀) opened frames := by
  obtain ⟨cur, s, next, s', hv, htrans, -, resume, frames, stack, rfl, hleads, hr⟩ :=
    h.swallows hw hpart hc hcov
  refine ⟨resume, frames, s', ?_, hleads, hr⟩
  have hloop := (hv.loop_eq hw).trans (loop_of_stop (htrans.step_eq hv.running))
  rw [run, isHalted_bind, hv.1]
  exact bind_of_ok hloop

omit hw hpart in
/-- The walk ends before the end of the part only where the content marker is dropped. -/
theorem exists_executes_of_transition {resume : Place} {carried : List (Ending ω)}
    (h : c.Transition data cur s (.stop (.swallowed resume carried) stack) s')
    (hv : c.Visits data s₀ cur s) :
    ∃ skip opened, c.Executes data s₀ skip opened ∧ skip.Covers c.template c.exit := by
  generalize hn : Next.stop (.swallowed resume carried) stack = next at h
  cases h with
  | jump | dropElement | endBefore | finish => cases hn
  | plain | inTag | wrapperStart | dropContent | wrapperEnd =>
    unfold settled at hn
    split at hn <;> cases hn
  | jumpOut hj hk =>
    obtain ⟨index, e, hasked, he, rfl⟩ := hv.planned _ hj.jump_eq
    have hcontains : c.part = .preContent ∧ e.containsContent = true := by
      simpa [jumpOver] using hk
    exact ⟨_, _, .elementContent hasked he hv hj, e, he, (hc index e he).mp hcontains.2⟩
  | elementOut hcalls hs₁ hk hcut hdrops =>
    have he := hcalls.element_eq
    exact ⟨_, _, .element hv hcalls hs₁ hk, _, he, (hc _ _ he).mp hdrops.2⟩
  | contentOut hcalls hs₁ hk hn hle =>
    refine ⟨_, _, .wrapperContent hv hcalls hs₁ hk, ?_, hle⟩
    obtain ⟨ha, -, -, -⟩ := hcalls
    exact ha.marker_lt

omit hw hpart in
theorem exists_executes_of_run {resume : Place} {carried : List (Ending ω)}
    (h : c.run data c.entry s₀ = .ok (.swallowed resume carried, s')) :
    ∃ skip opened, c.Executes data s₀ skip opened ∧ skip.Covers c.template c.exit := by
  obtain ⟨-, ⟨⟩, -⟩ | ⟨hs, stack, hwalk⟩ := run_eq_ok h
  obtain ⟨cur, s, hreach, hstep⟩ := exists_stop_of_loop hwalk
  have hv : c.Visits data s₀ cur s := ⟨hs, hreach⟩
  exact exists_executes_of_transition hc (transition_of_step hv.running hstep) hv

end Component

/-! ## 4. Wrappers -/

namespace Wrapper

variable {w : Wrapper ω δ} {data : δ} {s t : Session ω}

/-- Rendering the wrapper from the session `s` renders the payload once, from the session
`t` on: nothing else depends on the payload. -/
def CallsPayload (w : Wrapper ω δ) (data : δ) (s t : Session ω) : Prop :=
  ∃ rest : Render ω Unit, ∀ payload, w.render data payload s = (do payload; rest) t

/-- Rendering the wrapper from the session `s` does not render the payload. -/
def LeavesPayload (w : Wrapper ω δ) (data : δ) (s : Session ω) : Prop :=
  ∃ result, ∀ payload, w.render data payload s = result

theorem CallsPayload.not_leavesPayload (h : w.CallsPayload data s t) : ¬w.LeavesPayload data s := by
  rintro ⟨result, hresult⟩
  obtain ⟨rest, hrest⟩ := h
  -- Payloads that fail in different ways show the difference.
  have hfault : ∀ fault : Fault, result = .error fault := by
    intro fault
    rw [← hresult (throw fault), hrest]
    rfl
  cases (hfault .nothingOpen).symm.trans (hfault .overflow)

/-- The run of the part before the content marker. -/
def before (w : Wrapper ω δ) (data : δ) : Render ω (Outcome ω) :=
  w.preContent.run data w.preContent.entry

theorem callsPayload_of_finished {carried : List (Ending ω)}
    (h : w.before data s = .ok (.finished carried, t)) : w.CallsPayload data s t :=
  ⟨do runEndings carried; w.renderPost data w.content, fun _ => bind_of_ok h⟩

theorem render_of_swallowed {resume : Place} {carried : List (Ending ω)}
    (h : w.before data s = .ok (.swallowed resume carried, t)) (payload : Render ω Unit) :
    w.render data payload s = (do runEndings carried; w.renderPost data resume) t :=
  bind_of_ok h

theorem leavesPayload_of_not_finished
    (h : ∀ carried t, w.before data s ≠ .ok (.finished carried, t)) : w.LeavesPayload data s := by
  cases hrun : w.before data s with
  | error fault => exact ⟨_, fun _ => bind_of_error hrun⟩
  | ok p =>
    obtain ⟨outcome, t⟩ := p
    cases outcome with
    | halted => exact ⟨_, fun _ => bind_of_ok hrun⟩
    | finished carried => exact absurd hrun (h carried t)
    | swallowed resume carried => exact ⟨_, render_of_swallowed hrun⟩

/-- The payload is rendered only if the part before the content marker comes to its end. -/
theorem CallsPayload.exists_finished (h : w.CallsPayload data s t) :
    ∃ carried t, w.before data s = .ok (.finished carried, t) := by
  by_contra hnone
  exact h.not_leavesPayload (leavesPayload_of_not_finished fun carried t hrun =>
    hnone ⟨carried, t, hrun⟩)

open Classical in
/-- The session from which the payload is rendered is the only one. -/
theorem CallsPayload.unique {t' : Session ω} (h : w.CallsPayload data s t)
    (h' : w.CallsPayload data s t') : t' = t := by
  obtain ⟨rest, hrest⟩ := h
  obtain ⟨rest', hrest'⟩ := h'
  -- A payload that fails from one session in another way than from all others.
  have heq := (hrest fun u => .error (if u = t then .nothingOpen else .overflow)).symm.trans
    (hrest' _)
  by_contra hne
  rw [bind_of_error (by rw [if_pos rfl]), bind_of_error (by rw [if_neg hne])] at heq
  cases heq

theorem callsPayload_or_leavesPayload (w : Wrapper ω δ) (data : δ) (s : Session ω) :
    (∃ t, w.CallsPayload data s t) ∨ w.LeavesPayload data s := by
  by_cases hfinished : ∃ carried t, w.before data s = .ok (.finished carried, t)
  · obtain ⟨carried, t, hrun⟩ := hfinished
    exact .inl ⟨t, callsPayload_of_finished hrun⟩
  · refine .inr (leavesPayload_of_not_finished fun carried t hrun => ?_)
    exact hfinished ⟨carried, t, hrun⟩

section Compiled

variable {source : String} {declarations : List (Declaration ω δ)}
  (h : Wrapper.compile source declarations = .ok w)
include h

theorem classified_of_compile : w.preContent.Classified :=
  fun _ _ he => Wrapper.containsContent_iff_encloses h he

/-- Where the part before the content marker ends if it drops the content marker. -/
theorem before_of_executes {skip : Skip} {opened : List Nat}
    (hskip : w.preContent.Executes data s skip opened) (hcov : skip.Covers w.template w.content) :
    ∃ resume frames t, w.before data s = .ok (.swallowed resume frames.flatten, t) ∧
      skip.LeadsTo w.template w.content resume ∧
      List.Forall₂ (w.preContent.Registers data s) opened frames :=
  hskip.run_eq (wellFormed_of_compile h).preContent rfl (classified_of_compile h) hcov

/-- The payload is rendered exactly if the part before the content marker ends with a
response that is not halted, and drops nothing that holds the content marker. -/
theorem callsPayload_iff (t : Session ω) :
    w.CallsPayload data s t ↔ (∃ outcome, w.before data s = .ok (outcome, t)) ∧
      t.response.halted = false ∧
      ∀ skip opened, w.preContent.Executes data s skip opened →
        ¬skip.Covers w.template w.content := by
  constructor
  · intro hcalls
    obtain ⟨carried, t', hrun⟩ := hcalls.exists_finished
    obtain rfl := hcalls.unique (callsPayload_of_finished hrun)
    have hiff := Component.halted_iff_of_run hrun
    refine ⟨⟨_, hrun⟩, ?_, fun skip opened hskip hcov => ?_⟩
    · cases hs : t'.response.halted with
      | true => cases hiff.mpr hs
      | false => rfl
    · obtain ⟨resume, frames, s', hrun', -⟩ := before_of_executes h hskip hcov
      cases hrun.symm.trans hrun'
  · rintro ⟨⟨outcome, hrun⟩, hrunning, hnone⟩
    cases outcome with
    | halted => cases hrunning.symm.trans ((Component.halted_iff_of_run hrun).mp rfl)
    | finished carried => exact callsPayload_of_finished hrun
    | swallowed resume carried =>
      obtain ⟨skip, opened, hskip, hcov⟩ :=
        Component.exists_executes_of_run (classified_of_compile h) hrun
      exact absurd hcov (hnone skip opened hskip)

end Compiled

/-- The payload of a compiled wrapper is rendered once or not at all. It is rendered exactly
if the part before the content marker ends with a response that is not halted, and drops
nothing that holds the content marker. If it does drop such a thing, then it ends there, with the
endings of the wrappers that are open. From the session that it ends in, these are run once from
the inside out, until one of them halts the response, and after that the part behind the content
marker is rendered from the place behind what was dropped. -/
theorem payload_of_compile {source : String} {declarations : List (Declaration ω δ)}
    (h : Wrapper.compile source declarations = .ok w) (data : δ) (s : Session ω) :
    ((∃ t, w.CallsPayload data s t) ∨ w.LeavesPayload data s) ∧
    (∀ t, w.CallsPayload data s t ↔ (∃ outcome, w.before data s = .ok (outcome, t)) ∧
      t.response.halted = false ∧
      ∀ skip opened, w.preContent.Executes data s skip opened →
        ¬skip.Covers w.template w.content) ∧
    ∀ skip opened, w.preContent.Executes data s skip opened →
      skip.Covers w.template w.content → ∃ resume frames t,
        w.before data s = .ok (.swallowed resume frames.flatten, t) ∧
        skip.LeadsTo w.template w.content resume ∧
        List.Forall₂ (w.preContent.Registers data s) opened frames ∧
        ∀ payload, w.render data payload s = (do
          runEndings frames.flatten
          w.renderPost data resume) t := by
  refine ⟨w.callsPayload_or_leavesPayload data s, callsPayload_iff h, ?_⟩
  intro skip opened hskip hcov
  obtain ⟨resume, frames, t, hrun, hleads, hr⟩ := before_of_executes h hskip hcov
  exact ⟨resume, frames, t, hrun, hleads, hr, render_of_swallowed hrun⟩

end Wrapper

/-- The source `${{outer}${{inner}${}}}}}`. -/
def nestedFramesSource : String :=
  "$\x7b\x7bouter\x7d$\x7b\x7binner\x7d$\x7b\x7d\x7d\x7d\x7d\x7d"

/-- An ending that logs a name, and may halt the response. -/
def loggingEnding (name : String) (halts : Bool) : Render (List String) Unit := do
  Render.modifyWorld fun log => log ++ [name]
  if halts then Render.halt

/-- The callback of the inner frame: the content is dropped, and an ending is registered
that may halt the response. -/
def droppingFrame (halts : Bool) : WrapperRender (List String) Unit := do
  WrapperRender.addEnding (loggingEnding "inner" halts)
  WrapperRender.skipContent

/-- The declarations of `nestedFramesSource`: two frames with endings that log their names. -/
def nestedFrames (halts : Bool) : List (Declaration (List String) Unit) :=
  [.wrapper "outer" fun _ => WrapperRender.addEnding (loggingEnding "outer" false),
   .wrapper "inner" fun _ => droppingFrame halts]

/-- The frames compiled. -/
def nestedFramesWrapper (halts : Bool) : Wrapper (List String) Unit where
  template :=
    { html := .empty
      markers := #[
        { name := "outer", span := { start := 0, stop := 0 }
          action := .wrapperStart
            (fun _ => WrapperRender.addEnding (loggingEnding "outer" false)) (some 3) },
        { name := "inner", span := { start := 0, stop := 0 }
          action := .wrapperStart (fun _ => droppingFrame halts) (some 2) },
        { name := "inner", span := { start := 0, stop := 0 }, action := .wrapperEnd 1 },
        { name := "outer", span := { start := 0, stop := 0 }, action := .wrapperEnd 0 }]
      elements := #[] }
  content := { marker := 2, offset := 0 }
  maxNesting := 2

theorem compile_nestedFrames (halts : Bool) :
    Wrapper.compile nestedFramesSource (nestedFrames halts) = .ok (nestedFramesWrapper halts) := by
  with_unfolding_all rfl

section NestedFrames

open Component

/-- Inside of the outer frame. -/
theorem visits_nestedFrames (halts : Bool) :
    (nestedFramesWrapper halts).preContent.Visits () (.fresh [])
      { marker := 1
        offset := 0
        depth := 1
        elements := []
        stack := { frames := [[loggingEnding "outer" false], []] } } (.fresh []) :=
  ⟨rfl, .single rfl⟩

theorem registers_outer (halts : Bool) :
    (nestedFramesWrapper halts).preContent.Registers () (.fresh []) 0
      [loggingEnding "outer" false] :=
  have hvisits : (nestedFramesWrapper halts).preContent.Visits () (.fresh [])
      ((nestedFramesWrapper halts).preContent.cursorAt { marker := 0, offset := 0 }
        (EndingStack.ofDepth 2)) (.fresh []) := ⟨rfl, .refl⟩
  .intro hvisits ⟨Nat.zero_lt_two, rfl, nofun, rfl⟩ rfl rfl

theorem registers_inner (halts : Bool) :
    (nestedFramesWrapper halts).preContent.Registers () (.fresh []) 1
      [loggingEnding "inner" halts] :=
  .intro (visits_nestedFrames halts) ⟨Nat.one_lt_two, rfl, nofun, rfl⟩ rfl rfl

/-- The inner frame drops its content while both frames are open. -/
theorem executes_nestedFrames (halts : Bool) :
    (nestedFramesWrapper halts).preContent.Executes () (.fresh []) (.wrapperContent 1 2) [1, 0] :=
  .wrapperContent (visits_nestedFrames halts)
    (.intro ⟨Nat.one_lt_two, rfl, nofun, rfl⟩ rfl rfl rfl) rfl rfl

theorem covers_nestedFrames (halts : Bool) :
    (Skip.wrapperContent 1 2).Covers (nestedFramesWrapper halts).template
      (nestedFramesWrapper halts).content :=
  ⟨Nat.one_lt_two, Nat.le_refl 2⟩

end NestedFrames

/-- The payload is not rendered inside of frames whose content is dropped. -/
theorem Wrapper.payload_of_nestedFrames :
    Wrapper.compile nestedFramesSource (nestedFrames false) = .ok (nestedFramesWrapper false) ∧
      (nestedFramesWrapper false).LeavesPayload () (.fresh []) ∧
      ∃ resume, (Skip.wrapperContent 1 2).LeadsTo (nestedFramesWrapper false).template
        (nestedFramesWrapper false).content resume := by
  have hw := compile_nestedFrames false
  obtain ⟨hpayload, hcalls, hdropped⟩ := Wrapper.payload_of_compile hw () (.fresh [])
  have hskip := executes_nestedFrames false
  have hcov := covers_nestedFrames false
  obtain ⟨resume, -, -, -, hleads, -⟩ := hdropped _ _ hskip hcov
  refine ⟨hw, hpayload.resolve_left ?_, resume, hleads⟩
  rintro ⟨t, ht⟩
  exact ((hcalls t).mp ht).2.2 _ _ hskip hcov

/-- If the ending of the inner frame halts the response, that of the outer one is not run:
both frames are open when the content marker is dropped, and both have an ending that logs
its name. -/
theorem Wrapper.endings_of_haltingFrame :
    ∃ w s, Wrapper.compile nestedFramesSource (nestedFrames true) = .ok w ∧
      w.preContent.Executes () (.fresh []) (.wrapperContent 1 2) [1, 0] ∧
      (Skip.wrapperContent 1 2).Covers w.template w.content ∧
      w.preContent.Registers () (.fresh []) 1 [loggingEnding "inner" true] ∧
      w.preContent.Registers () (.fresh []) 0 [loggingEnding "outer" false] ∧
      w.render () (loggingEnding "payload" false) (.fresh []) = .ok ((), s) ∧
      s.world = ["inner"] := by
  refine ⟨nestedFramesWrapper true, { response := { halted := true }, world := ["inner"] },
    compile_nestedFrames true, executes_nestedFrames true, covers_nestedFrames true,
    registers_inner true, registers_outer true, ?_, rfl⟩
  with_unfolding_all rfl

end HtmlTemplate
