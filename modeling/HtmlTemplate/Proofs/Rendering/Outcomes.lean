import HtmlTemplate.Proofs.Rendering.Steps

/-!
# How walks end

The outcome of a walk tells whether the response is halted. A walk that halts
leaves a halted response, and a walk that comes to its end leaves one that is
not.

Results:
1. `ends_step`: this holds of a walk that a step ends.
2. `Component.ends_run`: it holds of every run.
-/

namespace HtmlTemplate

open Render

variable {ω δ α β : Type}

/-! ## 1. Steps -/

/-- Whenever the computation returns, its result and the session have the property. -/
def Render.Ends (x : Render ω α) (post : α → Session ω → Prop) : Prop :=
  ∀ s a s', x s = .ok (a, s') → post a s'

theorem ends_pure {a : α} {post : α → Session ω → Prop} (h : ∀ s, post a s) :
    Ends (pure a : Render ω α) post := by
  intro s a' s' hx
  cases hx
  exact h s

theorem ends_throw (e : Fault) (post : α → Session ω → Prop) :
    Ends (throw e : Render ω α) post := by
  intro s a s' hx
  cases hx

/-- How a sequence ends is decided by its last step. -/
theorem ends_bind {x : Render ω α} {f : α → Render ω β} {post : β → Session ω → Prop}
    (h : ∀ a, Ends (f a) post) : Ends (x >>= f) post := by
  intro s b s' hx
  obtain ⟨a, s₁, -, hf⟩ := ok_of_bind hx
  exact h a s₁ b s' hf

/-- The outcome tells whether the response is halted. -/
def Outcome.Tells : Outcome ω → Session ω → Prop
  | .halted, s => s.response.halted = true
  | .finished _, s => s.response.halted = false
  | .swallowed _ _, _ => True

/-- If the step has ended the walk, then the outcome tells whether the response is
halted. -/
def Next.Tells : Next ω → Session ω → Prop
  | .goto _, _ => True
  | .stop outcome _, s => outcome.Tells s

/-- Where a step ends the walk if the response is halted. -/
theorem ends_unless_halted {stack : EndingStack (Ending ω)} {x : Render ω (Next ω)}
    (h : ∀ s next s', s.response.halted = false → x s = .ok (next, s') → next.Tells s') :
    Ends (do if ← Render.isHalted then return Next.stop .halted stack else x) Next.Tells := by
  intro s next s' hx
  rw [isHalted_bind] at hx
  cases hs : s.response.halted with
  | true =>
    simp only [hs, if_true] at hx
    cases hx
    exact hs
  | false =>
    simp only [hs, Bool.false_eq_true, if_false] at hx
    exact h s next s' hs hx

namespace Component

variable (c : Component ω δ) (data : δ) (cur : Cursor ω)

theorem ends_proceed : Ends (proceed cur) Next.Tells := by
  refine ends_unless_halted ?_
  intro s next s' _ hx
  cases hx
  trivial

theorem ends_swallow (resume : Place) : Ends (c.swallow cur resume) Next.Tells :=
  ends_bind fun _ => ends_pure fun _ => trivial

theorem ends_finish : Ends (c.finish cur) Next.Tells := by
  refine ends_bind fun cur' => ends_unless_halted ?_
  intro s next s' hs hx
  obtain ⟨⟨carried, stack⟩, s₁, hover, hx⟩ := ok_of_bind hx
  cases hx
  unfold handOver at hover
  split at hover
  · cases hover
    exact hs
  · split at hover
    · cases hover
      exact hs
    · cases hover

theorem ends_takeJump (jump : Jump) : Ends (c.takeJump cur jump) Next.Tells := by
  refine ends_bind ?_
  intro cur'
  split
  · exact ends_swallow c cur' _
  · exact ends_pure fun _ => trivial

theorem ends_closeWrapper : Ends (closeWrapper cur) Next.Tells := by
  unfold closeWrapper
  split
  · exact ends_throw _ _
  · exact ends_bind fun _ => ends_bind fun _ => ends_proceed _

theorem ends_dropContent (closing? : Option Nat) :
    Ends (c.dropContent cur closing?) Next.Tells := by
  unfold dropContent
  split
  · exact ends_throw _ _
  · refine ends_bind ?_
    intro m
    split
    · exact ends_swallow c cur _
    · exact ends_closeWrapper _

theorem ends_dropElement (e : Element) : Ends (c.dropElement cur e) Next.Tells := by
  rw [dropElement_eq]
  refine ends_bind fun size => ends_bind fun _ => ?_
  split
  · exact ends_swallow c cur _
  · exact ends_pure fun _ => trivial

theorem ends_runAttributes (run : AttributeRender ω Unit) (e : Element) :
    Ends (c.runAttributes cur run e) Next.Tells := by
  refine ends_bind fun ⟨_, scope⟩ => ends_unless_halted ?_
  intro s next s' _ hx
  split at hx
  · exact ends_dropElement c cur e s next s' hx
  · split at hx <;> cases hx <;> trivial

theorem ends_runWrapperStart (run : WrapperRender ω Unit) (closing? : Option Nat) :
    Ends (c.runWrapperStart cur run closing?) Next.Tells := by
  refine ends_bind fun frame => ends_bind fun ⟨_, scope⟩ =>
    ends_unless_halted ?_
  intro s next s' _ hx
  split at hx
  · exact ends_dropContent c _ closing? s next s' hx
  · cases hx
    trivial

theorem ends_act (m : Marker ω δ) : Ends (c.act data cur m) Next.Tells := by
  unfold act
  split
  · exact ends_bind fun _ => ends_proceed _
  · exact ends_bind fun e => ends_runAttributes c cur _ e
  · exact ends_runWrapperStart c cur _ _
  · split
    · exact ends_closeWrapper cur
    · exact ends_pure fun _ => trivial

theorem ends_visit : Ends (c.visit data cur) Next.Tells := by
  unfold visit
  split
  · refine ends_bind fun m => ends_bind fun cur₁ => ends_bind fun cur₂ =>
      ends_unless_halted ?_
    intro s next s' _ hx
    exact ends_act c data cur₂ m s next s' hx
  · exact ends_finish c cur

theorem ends_step : Ends (c.step data cur) Next.Tells := by
  unfold step
  split
  · exact ends_visit c data cur
  · refine ends_bind ?_
    intro stop
    split
    · exact ends_takeJump c cur _
    · exact ends_visit c data cur

/-! ## 2. Runs -/

theorem ends_outcome : Ends (c.outcome data cur) Outcome.Tells := by
  generalize hn : c.remaining cur = n
  induction n using Nat.strongRecOn generalizing cur with
  | ind n ih =>
    intro s outcome s' hx
    rw [outcome_eq_follow] at hx
    obtain ⟨next, s₁, hstep, hfollow⟩ := ok_of_bind hx
    have htells := ends_step c data cur s next s₁ hstep
    cases next with
    | stop outcome' stack =>
      cases hfollow
      exact htells
    | goto cur' =>
      simp only [follow] at hfollow
      split at hfollow
      · next hlt => exact ih _ (hn ▸ hlt) cur' rfl s₁ outcome s' hfollow
      · cases hfollow

theorem ends_run (place : Place) : Ends (c.run data place) Outcome.Tells := by
  intro s outcome s' hx
  unfold run at hx
  rw [isHalted_bind] at hx
  cases hs : s.response.halted with
  | true =>
    simp only [hs, if_true] at hx
    cases hx
    exact hs
  | false =>
    simp only [hs, Bool.false_eq_true, if_false] at hx
    exact ends_outcome c data _ s outcome s' hx

end Component

end HtmlTemplate
