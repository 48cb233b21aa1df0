import Mathlib.Data.List.Forall2
import HtmlTemplate.Proofs.Rendering.Accounts
import HtmlTemplate.Proofs.Rendering.Traces
import HtmlTemplate.Proofs.Template.Compiled

/-!
# Renders settle what they owe

While a component is rendered, endings are on frames of the stack, with the caller, or in the
scope of a callback. `Owing` says that they are what is owed: the endings that have been
registered under some mark and not been invoked, the next one first. Each move of endings
keeps that, and a render that is over owes nothing, unless the response is halted.

Results:
1. `Owing.trans`, `Owing.runEndings`: what is done one after the other, and endings that run.
2. `Transition.owing`, `owing_of_walk`: a walk owes what is on the frames of its open
   wrappers, and hands that to its caller.
3. `Component.settles_render`, `Wrapper.settles_render`, `WrapperRender.settles_wrapMarked`:
   what the library renders.
4. `Render.Journals.settles`: callbacks settle what they owe.
-/

namespace HtmlTemplate

open Render

variable {σ δ α β : Type}

/-! ## 1. What is owed -/

/-- The computation invokes what it registers, unless the response is halted. -/
def Render.Settles (x : Render (Journaled σ) α) : Prop :=
  ∀ s a s', x s = .ok (a, s') → ∃ new owed, Adds none s s' new owed ∧
    (s'.response.halted = false → owed = [])

/-- The ending notes its mark, and settles what it owes itself. -/
def Owes (ending : Ending (Journaled σ)) (mark : Mark) : Prop :=
  ∃ x, Render.Settles x ∧ ending = Render.marked mark x

/-- Unless the response is halted, the endings are what is owed by now of what has been
registered since `s₀`. -/
def Owing (own : Option Nat) (s₀ s : Session (Journaled σ))
    (endings : List (Ending (Journaled σ))) : Prop :=
  ∃ new owed, Adds own s₀ s new owed ∧
    (s.response.halted = false → List.Forall₂ Owes endings owed)

theorem settles_iff_owing {x : Render (Journaled σ) α} :
    Render.Settles x ↔ ∀ s a s', x s = .ok (a, s') → Owing none s s' [] := by
  simp only [Render.Settles, Owing, List.forall₂_nil_left_iff]

namespace Owing

variable {own : Option Nat} {s₀ s s' : Session (Journaled σ)} {k : Nat}
  {endings endings' first rest : List (Ending (Journaled σ))}

theorem of_adds {new : List Entry} (h : Adds own s₀ s new []) : Owing own s₀ s [] :=
  ⟨new, [], h, fun _ => .nil⟩

/-- Nothing has been noted, and the response is as before unless it was not halted. -/
theorem silent (hjournal : s.world.journal = s₀.world.journal)
    (hfrozen : s₀.response.Frozen s.response) : Owing none s₀ s [] :=
  of_adds (.silent hjournal hfrozen fun _ h => by cases h)

theorem next_le (h : Owing own s₀ s endings) : s₀.next ≤ s.next :=
  have ⟨_, _, hadds, _⟩ := h
  hadds.next_le

/-- Nothing is said of the endings if the response is halted. -/
theorem of_halted (h : Owing own s₀ s endings) (hs : s.response.halted = true) :
    Owing own s₀ s endings' :=
  have ⟨new, owed, hadds, _⟩ := h
  ⟨new, owed, hadds, fun hrun => by cases hs.symm.trans hrun⟩

/-- What is registered later is owed first. -/
theorem trans (h : Owing own s₀ s endings) (h' : Owing own s s' endings') :
    Owing own s₀ s' (endings' ++ endings) := by
  obtain ⟨new, owed, hadds, howed⟩ := h
  obtain ⟨new', owed', hadds', howed'⟩ := h'
  refine ⟨_, _, hadds.trans hadds', fun hs' => ?_⟩
  cases hs : s.response.halted with
  | true => cases (hadds'.quiet.frozen hs).1.symm.trans hs'
  | false => exact List.rel_append (howed' hs') (howed hs)

theorem within (h : Owing none s₀ s endings) (hk : k < s₀.next) : Owing (some k) s₀ s endings :=
  have ⟨new, owed, hadds, howed⟩ := h
  ⟨new, owed, hadds.within hk, howed⟩

/-- The endings that are owed first are run. -/
theorem runEndings (h : Owing none s₀ s (first ++ rest))
    (hrun : HtmlTemplate.runEndings first s = .ok ((), s')) : Owing none s₀ s' rest := by
  induction first generalizing s with
  | nil =>
    cases hrun
    exact h
  | cons ending more ih =>
    rw [runEndings_cons] at hrun
    cases hs : s.response.halted with
    | true =>
      rw [unlessHalted_of_halted _ hs] at hrun
      cases hrun
      exact h.of_halted hs
    | false =>
      rw [unlessHalted_of_running _ hs] at hrun
      obtain ⟨⟨⟩, s₁, hending, hmore⟩ := ok_of_bind hrun
      obtain ⟨new, owed, hadds, howed⟩ := h
      obtain ⟨mark, owed', ⟨x, hx, rfl⟩, hrest, rfl⟩ := List.forall₂_cons_left_iff.mp (howed hs)
      have hinvoked : Owing none s₀ (s.noting (.ran mark)) (more ++ rest) :=
        ⟨_, _, hadds.ran_head hs, fun _ => hrest⟩
      have hsettled := settles_iff_owing.mp hx (s.noting (.ran mark)) () s₁ hending
      exact ih (hinvoked.trans hsettled) hmore

/-- All endings that are owed are run. -/
theorem runEndings_all (h : Owing none s₀ s endings)
    (hrun : HtmlTemplate.runEndings endings s = .ok ((), s')) : Owing none s₀ s' [] := by
  rw [← List.append_nil endings] at h
  exact h.runEndings hrun

end Owing

/-! ## 2. Computations -/

/-- The computation invokes what it registers, if it is begun before the response is
halted. -/
def Render.SettlesIfRunning (x : Render (Journaled σ) α) : Prop :=
  ∀ s a s', s.response.halted = false → x s = .ok (a, s') → Owing none s s' []

theorem Render.settles_bind {x : Render (Journaled σ) α} {f : α → Render (Journaled σ) β}
    (hx : Settles x) (hf : ∀ a, Settles (f a)) : Settles (x >>= f) := by
  rw [settles_iff_owing] at hx ⊢
  intro s b s' h
  obtain ⟨a, s₁, hrun, hrest⟩ := ok_of_bind h
  exact (hx s a s₁ hrun).trans (settles_iff_owing.mp (hf a) s₁ b s' hrest)

theorem Render.settles_pure (a : α) : Settles (pure a : Render (Journaled σ) α) := by
  rw [settles_iff_owing]
  intro s b s' h
  cases h
  exact .silent rfl (.refl _)

theorem Render.settles_consult (f : Response → σ → α × σ) : Settles (Render.consult f) := by
  rw [settles_iff_owing]
  intro s a s' h
  cases h
  exact .silent rfl (.refl _)

theorem Render.settles_throw (f : Fault) : Settles (throw f : Render (Journaled σ) α) :=
  fun s a s' h => by cases h

/-- A note that is not about endings. -/
theorem owing_note {event : Event} {s s' : Session (Journaled σ)} {u : Unit}
    (h : Render.note event s = .ok (u, s')) (hregistered : event.registered? = none)
    (hran : event.ran? = none)
    (hs : event.isInvocation = true → s.response.halted = false) : Owing none s s' [] := by
  cases h
  exact .of_adds (.noted (fun _ hk => by cases hk) hregistered hran hs)

theorem Render.settles_reply (call : Response.Call) :
    Settles (Render.reply call : Render (Journaled σ) Unit) := by
  rw [settles_iff_owing]
  intro s a s' h
  obtain ⟨⟨⟩, s₁, hcall, hnote⟩ := ok_of_bind h
  cases hcall
  have hcalled : Owing none s { s with response := s.response.apply call } [] :=
    .silent rfl (s.response.frozen_apply call)
  exact hcalled.trans (owing_note hnote rfl rfl fun hinvoked => by cases hinvoked)

/-- What is invoked may be any computation that settles what it owes. -/
theorem Render.Settles.called {x : Render (Journaled σ) α} (hx : Settles x) :
    SettlesIfRunning (Render.called x) := by
  intro s a s' hs h
  obtain ⟨⟨⟩, s₁, hnote, hrest⟩ := ok_of_bind h
  have hnoted := owing_note hnote rfl rfl fun _ => hs
  exact hnoted.trans (settles_iff_owing.mp hx s₁ a s' hrest)

/-- The computation leaves the endings that it registers in the scope of its callback, in
front of those registered before. -/
def WrapperRender.Settles (callback : Nat) (x : WrapperRender (Journaled σ) α) : Prop :=
  ∀ scope s a scope' s', callback < s.next → x.run scope s = .ok ((a, scope'), s') →
    ∃ endings, scope'.endings = endings ++ scope.endings ∧ Owing (some callback) s s' endings

/-- The same of a callback as a whole, if it is invoked before the response is halted. -/
def WrapperRender.SettlesIfRunning (x : WrapperRender (Journaled σ) Unit) : Prop :=
  ∀ scope s a scope' s', s.response.halted = false → x.run scope s = .ok ((a, scope'), s') →
    ∃ endings, scope'.endings = endings ++ scope.endings ∧ Owing none s s' endings

def AttributeRender.Settles (x : AttributeRender (Journaled σ) α) : Prop :=
  ∀ scope, Render.Settles (x.run scope)

namespace WrapperRender

variable {callback : Nat}

theorem settles_bind {x : WrapperRender (Journaled σ) α} {f : α → WrapperRender (Journaled σ) β}
    (hx : Settles callback x) (hf : ∀ a, Settles callback (f a)) :
    Settles callback (x >>= f) := by
  intro scope s b scope' s' hk h
  obtain ⟨a, scope₁, s₁, hrun, hrest⟩ := ok_of_bind h
  obtain ⟨endings, hscope, howing⟩ := hx scope s a scope₁ s₁ hk hrun
  have hk₁ := Nat.lt_of_lt_of_le hk howing.next_le
  obtain ⟨endings', hscope', howing'⟩ := hf a scope₁ s₁ b scope' s' hk₁ hrest
  exact ⟨endings' ++ endings, by rw [hscope', hscope, List.append_assoc], howing.trans howing'⟩

theorem settles_lift {x : Render (Journaled σ) α} (hx : Render.Settles x) :
    Settles callback (StateT.lift x) := by
  intro scope s a scope' s' hk h
  obtain ⟨rfl, hrun⟩ := ok_of_lift h
  exact ⟨[], rfl, (settles_iff_owing.mp hx s a s' hrun).within hk⟩

theorem newMark_eq_ok {scope scope' : WrapperScope (Journaled σ)} {s s' : Session (Journaled σ)}
    {mark : Mark} (h : (newMark callback).run scope s = .ok ((mark, scope'), s')) :
    scope' = scope ∧ mark = ⟨callback, s.next⟩ ∧ s' = s.counting.noting (.registered mark) := by
  obtain ⟨rfl, hrun⟩ := ok_of_lift h
  cases hrun
  exact ⟨rfl, rfl, rfl⟩

theorem settles_addMarked {ending : Render (Journaled σ) Unit} (hending : Render.Settles ending) :
    Settles callback (addMarked callback ending) := by
  intro scope s a scope' s' hk h
  obtain ⟨mark, scope₁, s₁, hmark, hadd⟩ := ok_of_bind h
  obtain ⟨rfl, rfl, rfl⟩ := newMark_eq_ok hmark
  cases hadd
  exact ⟨[_], rfl, _, _, .registers hk, fun _ => .cons ⟨ending, hending, rfl⟩ .nil⟩

theorem settles_skipContent :
    Settles callback (skipContent : WrapperRender (Journaled σ) Unit) := by
  intro scope s a scope' s' hk h
  cases h
  exact ⟨[], rfl, .of_adds (.silent rfl (.refl _) fun _ hk' => by cases hk'; exact hk)⟩

/-- A callback takes its number when it is invoked. -/
theorem settlesIfRunning_called {x : Nat → WrapperRender (Journaled σ) Unit}
    (hx : ∀ callback, Settles callback (x callback)) : SettlesIfRunning (called x) := by
  intro scope s a scope' s' hs h
  obtain ⟨⟨⟩, scope₁, s₁, hnote, hrest⟩ := ok_of_bind h
  obtain ⟨rfl, hnote⟩ := ok_of_lift hnote
  cases hnote
  obtain ⟨callback, scope₂, s₂, hnumber, hbody⟩ := ok_of_bind hrest
  obtain ⟨rfl, hnumber⟩ := ok_of_lift hnumber
  cases hnumber
  obtain ⟨endings, hscope, new, owed, hadds, howed⟩ :=
    hx s.next _ _ _ _ _ (Nat.lt_succ_self _) hbody
  exact ⟨endings, hscope, _, owed, .begun hs hadds, howed⟩

end WrapperRender

namespace AttributeRender

theorem settles_bind {x : AttributeRender (Journaled σ) α}
    {f : α → AttributeRender (Journaled σ) β} (hx : Settles x) (hf : ∀ a, Settles (f a)) :
    Settles (x >>= f) := by
  intro scope
  rw [StateT.run_bind]
  exact Render.settles_bind (hx scope) fun p => hf p.1 p.2

theorem settles_lift {x : Render (Journaled σ) α} (hx : Render.Settles x) :
    Settles (StateT.lift x) := by
  intro scope
  rw [StateT.run_lift]
  exact Render.settles_bind hx fun _ => Render.settles_pure _

theorem settles_skipContent : Settles (skipContent : AttributeRender (Journaled σ) Unit) :=
  fun _ => Render.settles_pure _

theorem settles_skipElement : Settles (skipElement : AttributeRender (Journaled σ) Unit) :=
  fun _ => Render.settles_pure _

theorem settlesIfRunning_called {x : AttributeRender (Journaled σ) Unit} (hx : Settles x)
    (scope : AttributeScope) : Render.SettlesIfRunning ((called x).run scope) := by
  have hrun : (called x).run scope = Render.called (x.run scope) := by
    unfold called Render.called
    rw [StateT.run_bind, StateT.run_lift, bind_assoc]
    rfl
  rw [hrun]
  exact (hx scope).called

end AttributeRender

/-- The callback settles what it owes, or leaves it in its scope, if it is invoked before the
response is halted. -/
def Callback.Settles (data : δ) : Callback (Journaled σ) δ → Prop
  | .plain run => Render.SettlesIfRunning (run data)
  | .wrapper run => WrapperRender.SettlesIfRunning (run data)
  | .attributes run => ∀ scope, Render.SettlesIfRunning ((run data).run scope)

/-- The callbacks of the template settle what they owe. -/
abbrev Template.Settles (t : Template (Journaled σ) δ) (data : δ) : Prop :=
  t.EachCallback fun callback => callback.Settles data

/-! ## 3. Walks -/

/-- A walk owes what is on the frames of the open wrappers. When it ends, it owes what it
hands to its caller, and leaves nothing on the stack. -/
def Next.Owing (c : Component (Journaled σ) δ) (s₀ : Session (Journaled σ)) :
    Next (Journaled σ) → Session (Journaled σ) → Prop
  | .goto cur, s => ∃ frames, cur.Holding frames ∧ HtmlTemplate.Owing none s₀ s frames.flatten
  | .stop outcome stack, s => HtmlTemplate.Owing none s₀ s outcome.carried ∧
      (c.part ≠ .preContent → outcome.carried = []) ∧
      (s.response.halted = false → stack.isClear = true)

namespace Component

variable {c : Component (Journaled σ) δ} {data : δ} {cur cur₁ : Cursor (Journaled σ)}
  {s₀ s s₁ s' : Session (Journaled σ)} {next : Next (Journaled σ)}
  {frames : List (List (Ending (Journaled σ)))}

theorem owing_of_wrote (h : s.Wrote s') : Owing none s s' [] := by
  obtain ⟨bytes, rfl⟩ := h
  exact .silent rfl (s.response.frozen_apply (.writeRawBytes bytes))

theorem owing_settled (hf : cur.Holding frames) (h : Owing none s₀ s frames.flatten) :
    (settled cur s).Owing c s₀ s := by
  unfold settled
  cases hs : s.response.halted with
  | true => exact ⟨h.of_halted hs, fun _ => rfl, fun hrun => by cases hs.symm.trans hrun⟩
  | false => exact ⟨frames, hf, h⟩

/-- What is on the frames is handed to the caller. -/
theorem owing_handedOver {outcome : Outcome (Journaled σ)} (hf : cur.Holding frames)
    (h : Owing none s₀ s frames.flatten) (hover : c.HandsOver cur)
    (hcarried : outcome.carried = cur.pending) :
    (Next.stop outcome cur.cleared).Owing c s₀ s := by
  refine ⟨?_, fun hpart => ?_, fun _ => hf.isClear_cleared⟩
  · rw [hcarried, hf.pending_eq]
    exact h
  · have hdepth := hf.depth_eq.symm.trans (hover.resolve_right hpart)
    rw [hcarried, hf.pending_eq, List.eq_nil_of_length_eq_zero hdepth]
    rfl

theorem CutsBack.owing {e : Element} (h : CutsBack cur e s s') (hs : s.response.halted = false) :
    Owing none s s' [] := by
  obtain ⟨size, -, rfl⟩ := h
  exact .silent rfl (Response.frozen_of_running hs)

theorem CallsInTag.owing {index : Nat} {e : Element} {scope : AttributeScope}
    (h : c.CallsInTag data cur s index e cur₁ scope s') (ht : c.template.Settles data)
    (hs : s.response.halted = false) : Owing none s s' [] := by
  obtain ⟨harrives, ha, -, hrun⟩ := h
  have hcallback := ht _ _ (.attributes _) harrives.marker_eq (by rw [ha]; rfl)
  exact (owing_of_wrote harrives.wrote).trans (hcallback {} _ _ _ (harrives.running hs) hrun)

theorem CallsInTag.holding {index : Nat} {e : Element} {scope : AttributeScope}
    (h : c.CallsInTag data cur s index e cur₁ scope s') (hf : cur.Holding frames) :
    cur₁.Holding frames := by
  obtain ⟨harrives, -, -, -⟩ := h
  exact harrives.holding hf

/-- The endings that the callback has registered are those on the new frame. -/
theorem CallsAtStart.owing {closing? : Option Nat} {scope : WrapperScope (Journaled σ)}
    (h : c.CallsAtStart data cur s closing? cur₁ scope s') (ht : c.template.Settles data)
    (hs : s.response.halted = false) (hf : cur.Holding frames) :
    (cur₁.enter scope.endings).Holding (scope.endings :: frames) ∧
      Owing none s s' scope.endings := by
  obtain ⟨harrives, ha, hframe, hrun⟩ := h
  have hf₁ := harrives.holding hf
  obtain rfl := hf₁.frame_eq_nil hframe
  have hcallback := ht _ _ (.wrapper _) harrives.marker_eq (by rw [ha]; rfl)
  obtain ⟨endings, hendings, howing⟩ := hcallback _ _ _ _ _ (harrives.running hs) hrun
  rw [List.append_nil] at hendings
  subst hendings
  refine ⟨hf₁.enter hframe _, ?_⟩
  have h' := (owing_of_wrote harrives.wrote).trans howing
  rwa [List.append_nil] at h'

/-- A transition moves the endings that are owed with the cursor. -/
theorem Transition.owing (h : c.Transition data cur s next s') (ht : c.template.Settles data)
    (hs : s.response.halted = false) (hf : cur.Holding frames)
    (howing : Owing none s₀ s frames.flatten) : next.Owing c s₀ s' := by
  cases h with
  | jump hj =>
    obtain ⟨rfl, hwrote⟩ := Template.advance_eq_ok hj.run_eq
    exact ⟨frames, (hf.congr rfl rfl).moveTo _, howing.trans (owing_of_wrote hwrote)⟩
  | jumpOut hj _ hover =>
    obtain ⟨rfl, hwrote⟩ := Template.advance_eq_ok hj.run_eq
    exact owing_handedOver (hf.congr rfl rfl) (howing.trans (owing_of_wrote hwrote)) hover rfl
  | plain ha hm hrun =>
    have hcallback := ht _ _ (.plain _) ha.marker_eq (by rw [hm]; rfl)
    have hcalled := (owing_of_wrote ha.wrote).trans (hcallback _ _ _ (ha.running hs) hrun)
    exact owing_settled (ha.holding hf).next (howing.trans hcalled)
  | @inTag index e cur₁ scope _ hcalls =>
    refine owing_settled ?_ (howing.trans (hcalls.owing ht hs))
    exact (hcalls.holding hf).congr (depth_behindTag scope) (stack_behindTag scope)
  | dropElement hcalls hs₁ hk hcut =>
    exact ⟨frames, (hcalls.holding hf).moveTo _,
      (howing.trans (hcalls.owing ht hs)).trans (hcut.owing hs₁)⟩
  | elementOut hcalls hs₁ hk hcut hdrops =>
    exact owing_handedOver (hcalls.holding hf)
      ((howing.trans (hcalls.owing ht hs)).trans (hcut.owing hs₁)) (.inr hdrops.1) rfl
  | wrapperStart hcalls =>
    obtain ⟨hf₁, hcalled⟩ := hcalls.owing ht hs hf
    exact owing_settled hf₁.next (howing.trans hcalled)
  | @dropContent index cur₁ scope s₁ _ n hcalls hs₁ hk hn hlt hrun =>
    obtain ⟨hf₁, hcalled⟩ := hcalls.owing ht hs hf
    have hf₂ : Cursor.Holding { cur₁.enter scope.endings with
        marker := index
        offset := n.position } (scope.endings :: frames) := hf₁.congr rfl rfl
    exact owing_settled (hf₂.leave rfl) ((howing.trans hcalled).runEndings hrun)
  | contentOut hcalls hs₁ hk hn hge hover =>
    obtain ⟨hf₁, hcalled⟩ := hcalls.owing ht hs hf
    exact owing_handedOver hf₁ (howing.trans hcalled) hover rfl
  | wrapperEnd ha hm hle hd hframe hrun =>
    have hf₁ := ha.holding hf
    obtain ⟨endings, rest, rfl⟩ := hf₁.exists_cons hd
    have hendings := Option.some.inj ((hf₁.frame?_eq hd).symm.trans hframe)
    rw [← hendings] at hrun
    have harrived : Owing none s₀ _ (endings ++ rest.flatten) :=
      howing.trans (owing_of_wrote ha.wrote)
    exact owing_settled (hf₁.leave hd) (harrived.runEndings hrun)
  | endBefore ha => exact ⟨frames, (ha.holding hf).next, howing.trans (owing_of_wrote ha.wrote)⟩
  | finish he hover =>
    obtain ⟨rfl, hwrote⟩ := Template.advance_eq_ok he.run_eq
    exact owing_handedOver (hf.congr rfl rfl) (howing.trans (owing_of_wrote hwrote)) hover rfl

/-- A walk from a stack without endings. -/
theorem owing_of_walk {place : Place} {stack stack' : EndingStack (Ending (Journaled σ))}
    {outcome : Outcome (Journaled σ)} (ht : c.template.Settles data)
    (hs : s.response.halted = false) (hclear : stack.isClear = true)
    (h : c.walk data place stack s = .ok ((outcome, stack'), s')) :
    (Next.stop outcome stack').Owing c s s' := by
  have hholding : (c.cursorAt place stack).Holding [] := by
    refine ⟨rfl, stack.frames.length, ?_⟩
    refine List.eq_replicate_iff.mpr ⟨rfl, fun frame hframe => ?_⟩
    exact List.isEmpty_iff.mp (List.all_eq_true.mp hclear frame hframe)
  refine loop_induction (fun cur s' => (Next.goto cur).Owing c s s')
    (fun outcome stack s' => (Next.stop outcome stack).Owing c s s') h hs
    ⟨[], hholding, .silent rfl (.refl _)⟩ ?_ ?_
  · rintro cur s₁ cur' s₂ hs₁ ⟨frames, hf, howing⟩ htrans
    exact htrans.owing ht hs₁ hf howing
  · rintro cur s₁ hs₁ ⟨frames, hf, howing⟩ htrans
    exact htrans.owing ht hs₁ hf howing

/-- A run owes what it hands to its caller, and only the part of a wrapper before its content
marker hands over anything. -/
theorem owing_of_run {place : Place} {outcome : Outcome (Journaled σ)}
    (ht : c.template.Settles data) (h : c.run data place s = .ok (outcome, s')) :
    Owing none s s' outcome.carried ∧ (c.part ≠ .preContent → outcome.carried = []) := by
  rcases run_eq_ok h with ⟨-, rfl, rfl⟩ | ⟨hs, stack, hwalk⟩
  · exact ⟨.silent rfl (.refl _), fun _ => rfl⟩
  · obtain ⟨howing, hcarried, -⟩ := owing_of_walk ht hs (EndingStack.isClear_ofDepth _) hwalk
    exact ⟨howing, hcarried⟩

/-- What a component hands over runs at its end. -/
theorem settles_render (ht : c.template.Settles data) : Render.Settles (c.render data) := by
  rw [settles_iff_owing]
  intro s u s' h
  obtain ⟨outcome, s₁, hrun, hrest⟩ := ok_of_bind h
  have howing := (owing_of_run ht hrun).1
  cases outcome with
  | halted =>
    cases hrest
    exact howing
  | finished carried | swallowed resume carried => exact howing.runEndings_all hrest

end Component

/-! ## 4. Wrappers -/

section Wrapper

variable {w : Wrapper (Journaled σ) δ} {data : δ}

theorem Wrapper.settles_renderPost (ht : w.template.Settles data) (place : Place) :
    Render.Settles (w.renderPost data place) := by
  rw [settles_iff_owing]
  intro s u s' h
  obtain ⟨outcome, s₁, hrun, hpure⟩ := ok_of_bind h
  cases hpure
  obtain ⟨howing, hcarried⟩ := Component.owing_of_run (c := w.postContent) ht hrun
  rwa [hcarried (by rintro ⟨⟩)] at howing

/-- What the part before the content marker hands over runs right behind the payload. -/
theorem Wrapper.settles_render (ht : w.template.Settles data) {payload : Render (Journaled σ) Unit}
    (hpayload : Render.SettlesIfRunning payload) : Render.Settles (w.render data payload) := by
  rw [settles_iff_owing]
  intro s u s' h
  obtain ⟨outcome, s₁, hrun, hrest⟩ := ok_of_bind h
  have howing := (Component.owing_of_run (c := w.preContent) ht hrun).1
  cases outcome with
  | halted =>
    cases hrest
    exact howing
  | finished carried =>
    have hs₁ : s₁.response.halted = false := by
      have hiff := Component.halted_iff_of_run hrun
      simpa using hiff
    obtain ⟨⟨⟩, s₂, hinner, hrest⟩ := ok_of_bind hrest
    obtain ⟨⟨⟩, s₃, hendings, hpost⟩ := ok_of_bind hrest
    have hinner : Owing none s s₂ carried := howing.trans (hpayload s₁ _ s₂ hs₁ hinner)
    have hpost := settles_iff_owing.mp (settles_renderPost ht _) s₃ _ s' hpost
    exact (hinner.runEndings_all hendings).trans hpost
  | swallowed resume carried =>
    obtain ⟨⟨⟩, s₂, hendings, hpost⟩ := ok_of_bind hrest
    have hpost := settles_iff_owing.mp (settles_renderPost ht _) s₂ _ s' hpost
    exact (howing.runEndings_all hendings).trans hpost

namespace WrapperRender

theorem modify_append_cons {ε : Type} (a b : List ε) (e : ε) (f : ε → ε) :
    (a ++ e :: b).modify a.length f = a ++ f e :: b := by
  induction a with
  | nil => rfl
  | cons x a ih => exact congrArg (x :: ·) ih

theorem settles_wrapMarked {callback : Nat} (ht : w.template.Settles data) :
    Settles callback (wrapMarked callback w data) := by
  intro scope s u scope' s' hk h
  obtain ⟨before, scope₁, s₁, hget, hrest⟩ := ok_of_bind h
  cases hget
  obtain ⟨⟨⟩, scope₂, s₂, hwrap, hrest⟩ := ok_of_bind hrest
  obtain ⟨after, scope₃, s₃, hget, hmark⟩ := ok_of_bind hrest
  cases hget
  obtain ⟨outcome, hrun, ⟨rfl, rfl⟩ | ⟨place, -, hendings⟩⟩ := wrap_eq_ok hwrap
  · rw [Nat.sub_self] at hmark
    cases hmark
    exact ⟨[], rfl, (Component.owing_of_run (c := w.preContent) ht hrun).1.within hk⟩
  · have hlength : scope₂.endings.length - scope.endings.length = outcome.carried.length + 1 := by
      rw [hendings]
      simp only [List.length_append, List.length_cons]
      omega
    rw [hlength] at hmark
    obtain ⟨mark, scope₄, s₄, hnew, hmodify⟩ := ok_of_bind hmark
    obtain ⟨hscope, rfl, rfl⟩ := newMark_eq_ok hnew
    subst scope₄
    cases hmodify
    obtain ⟨new, owed, hadds, howed⟩ := (Component.owing_of_run (c := w.preContent) ht hrun).1
    have hpost := Wrapper.settles_renderPost ht place
    refine ⟨outcome.carried ++ [Render.marked ⟨callback, s₂.next⟩ (w.renderPost data place)], ?_,
      _, _, hadds.registers_last hk, fun hs => ?_⟩
    · show scope₂.endings.modify outcome.carried.length _ = _
      rw [hendings, modify_append_cons, List.append_assoc]
      rfl
    · exact List.rel_append (howed hs) (.cons ⟨_, hpost, rfl⟩ .nil)

end WrapperRender

end Wrapper

/-! ## 5. Callbacks that keep a journal -/

/-- The callback of the declaration settles what it owes. -/
def Declaration.Settles (d : Declaration (Journaled σ) δ) : Prop :=
  ∀ callback, d.callback = some callback → ∀ data, callback.Settles data

mutual

theorem Render.Journals.settles {α : Type} {x : Render (Journaled σ) α} :
    Render.Journals x → Render.Settles x
  | .consult f => Render.settles_consult f
  | .reply call => Render.settles_reply call
  | .overflow => Render.settles_throw _
  | .bind hx hf => Render.settles_bind hx.settles fun a => (hf a).settles
  | .insert data h hd =>
    Component.settles_render (Component.eachCallback_of_compile h fun d hmem callback hc =>
      (hd d hmem).settles callback hc data)
  | .insertBefore data h hd =>
    Component.settles_render (Wrapper.eachCallback_of_compile h fun d hmem callback hc =>
      (hd d hmem).settles callback hc data)
  | .insertBehind data h hd =>
    Component.settles_render (Wrapper.eachCallback_of_compile h fun d hmem callback hc =>
      (hd d hmem).settles callback hc data)
  | .insertWrapped data h hd hpayload =>
    Wrapper.settles_render (Wrapper.eachCallback_of_compile h fun d hmem callback hc =>
      (hd d hmem).settles callback hc data) hpayload.settles.called

theorem WrapperRender.Journals.settles {callback : Nat} {α : Type}
    {x : WrapperRender (Journaled σ) α} :
    WrapperRender.Journals callback x → WrapperRender.Settles callback x
  | .lift hx => WrapperRender.settles_lift hx.settles
  | .bind hx hf => WrapperRender.settles_bind hx.settles fun a => (hf a).settles
  | .addEnding h => WrapperRender.settles_addMarked h.settles
  | .skipContent => WrapperRender.settles_skipContent
  | .wrap data h hd =>
    WrapperRender.settles_wrapMarked (Wrapper.eachCallback_of_compile h fun d hmem callback hc =>
      (hd d hmem).settles callback hc data)

theorem AttributeRender.Journals.settles {α : Type} {x : AttributeRender (Journaled σ) α} :
    AttributeRender.Journals x → AttributeRender.Settles x
  | .lift hx => AttributeRender.settles_lift hx.settles
  | .bind hx hf => AttributeRender.settles_bind hx.settles fun a => (hf a).settles
  | .skipContent => AttributeRender.settles_skipContent
  | .skipElement => AttributeRender.settles_skipElement

theorem Declaration.Journals.settles {δ : Type} {d : Declaration (Journaled σ) δ} :
    Declaration.Journals d → Declaration.Settles d
  | .fixed hc => by
    intro callback hcallback
    cases hc.symm.trans hcallback
  | .plain hc h => by
    intro callback hcallback data
    cases hc.symm.trans hcallback
    exact (h data).settles.called
  | .wrapper hc h => by
    intro callback hcallback data
    cases hc.symm.trans hcallback
    exact WrapperRender.settlesIfRunning_called fun callback => (h data callback).settles
  | .attributes hc h => by
    intro callback hcallback data
    cases hc.symm.trans hcallback
    exact AttributeRender.settlesIfRunning_called (h data).settles

end

end HtmlTemplate
