import Mathlib.Logic.Relation
import HtmlTemplate.Proofs.Rendering.Transitions

/-!
# Traces

A walk makes one transition after the other. `Component.Reaches` says to which cursors it
comes in between, and with which sessions.

Results:
1. `Reaches.invariant`, `loop_induction`: what every transition keeps is known of each
   cursor that is reached, and when the walk ends.
2. `halted_iff_of_loop`, `halted_iff_of_run`: a walk says that it is halted exactly if the
   response is halted at its end.
-/

namespace HtmlTemplate

open Render

variable {ω δ : Type}

namespace Component

variable {c : Component ω δ} {data : δ} {cur : Cursor ω} {s s' : Session ω} {next : Next ω}

/-- A walk goes on exactly if the response is not halted, and says that it is halted
exactly if it is. -/
def Reports : Next ω → Session ω → Prop
  | .goto _, s => s.response.halted = false
  | .stop outcome _, s => outcome = .halted ↔ s.response.halted = true

theorem reports_settled (cur : Cursor ω) (s : Session ω) : Reports (settled cur s) s := by
  unfold settled
  cases hs : s.response.halted with
  | true => exact iff_of_true rfl hs
  | false => exact hs

theorem settled_eq_goto {cur' : Cursor ω} (h : settled cur s = .goto cur') :
    cur = cur' ∧ s.response.halted = false := by
  unfold settled at h
  cases hs : s.response.halted with
  | true =>
    rw [hs] at h
    cases h
  | false =>
    rw [hs] at h
    cases h
    exact ⟨rfl, rfl⟩

theorem settled_of_running (cur : Cursor ω) (h : s.response.halted = false) :
    settled cur s = .goto cur := by
  rw [settled, h]
  rfl

theorem reports_swallowed (cur : Cursor ω) (resume : Place) (hs : s.response.halted = false) :
    Reports (swallowed cur resume) s :=
  iff_of_false (by rintro ⟨⟩) (by simp [hs])

theorem Transition.reports (h : c.Transition data cur s next s') (hs : s.response.halted = false) :
    Reports next s' := by
  cases h with
  | plain | inTag | wrapperStart | dropContent | wrapperEnd => exact reports_settled _ _
  | jump hj => exact (Template.advance_eq_ok hj.run_eq).2.halted_eq.trans hs
  | jumpOut hj =>
    exact reports_swallowed _ _ ((Template.advance_eq_ok hj.run_eq).2.halted_eq.trans hs)
  | dropElement hcalls hs₁ hk hcut =>
    obtain ⟨size, -, rfl⟩ := hcut
    exact hs₁
  | elementOut hcalls hs₁ hk hcut =>
    obtain ⟨size, -, rfl⟩ := hcut
    exact reports_swallowed _ _ hs₁
  | contentOut hcalls hs₁ => exact reports_swallowed _ _ hs₁
  | endBefore ha => exact ha.running hs
  | finish he =>
    refine iff_of_false (by rintro ⟨⟩) ?_
    simp [(Template.advance_eq_ok he.run_eq).2.halted_eq.trans hs]

/-- A step leads from one cursor and session to another. -/
def GoesOn (c : Component ω δ) (data : δ) (p q : Cursor ω × Session ω) : Prop :=
  c.step data p.1 p.2 = .ok (.goto q.1, q.2)

/-- The walk comes from one cursor to another. -/
def Reaches (c : Component ω δ) (data : δ) (cur₀ : Cursor ω) (s₀ : Session ω) (cur : Cursor ω)
    (s : Session ω) : Prop :=
  Relation.ReflTransGen (c.GoesOn data) (cur₀, s₀) (cur, s)

variable {cur₀ : Cursor ω} {s₀ : Session ω} {outcome : Outcome ω} {stack : EndingStack (Ending ω)}

/-- The walk has come to each cursor with a response that is not halted, and with what
every transition keeps. -/
theorem Reaches.invariant (Inv : Cursor ω → Session ω → Prop)
    (h : c.Reaches data cur₀ s₀ cur s) (hs₀ : s₀.response.halted = false) (hinit : Inv cur₀ s₀)
    (hgoto : ∀ cur s cur' s', c.Reaches data cur₀ s₀ cur s → s.response.halted = false →
      Inv cur s → c.Transition data cur s (.goto cur') s' → Inv cur' s') :
    s.response.halted = false ∧ Inv cur s := by
  have hall : ∀ p : Cursor ω × Session ω, Relation.ReflTransGen (c.GoesOn data) (cur₀, s₀) p →
      p.2.response.halted = false ∧ Inv p.1 p.2 := by
    intro p hp
    induction hp with
    | refl => exact ⟨hs₀, hinit⟩
    | tail hreach hstep ih =>
      have htrans := transition_of_step ih.1 hstep
      exact ⟨htrans.reports ih.1, hgoto _ _ _ _ hreach ih.1 ih.2 htrans⟩
  exact hall _ h

theorem Reaches.running (h : c.Reaches data cur₀ s₀ cur s) (hs₀ : s₀.response.halted = false) :
    s.response.halted = false :=
  (h.invariant (fun _ _ => True) hs₀ trivial fun _ _ _ _ _ _ _ _ => trivial).1

/-- A walk that returns has come to a cursor from which a step ends it. -/
theorem exists_stop_of_loop (h : c.loop data cur₀ s₀ = .ok ((outcome, stack), s')) :
    ∃ cur s, c.Reaches data cur₀ s₀ cur s ∧ c.step data cur s = .ok (.stop outcome stack, s') := by
  generalize hn : c.remaining cur₀ = n
  induction n using Nat.strongRecOn generalizing cur₀ s₀ with
  | ind n ih =>
    rw [loop] at h
    obtain ⟨next, s₁, hstep, hrest⟩ := ok_of_bind h
    cases next with
    | stop outcome' stack' =>
      cases hrest
      exact ⟨cur₀, s₀, .refl, hstep⟩
    | goto cur₁ =>
      simp only at hrest
      by_cases hlt : c.remaining cur₁ < c.remaining cur₀
      · rw [if_pos hlt] at hrest
        obtain ⟨cur, s, hreach, hstop⟩ := ih _ (hn ▸ hlt) hrest rfl
        exact ⟨cur, s, .head (show c.GoesOn data (cur₀, s₀) (cur₁, s₁) from hstep) hreach, hstop⟩
      · rw [if_neg hlt] at hrest
        cases hrest

theorem loop_of_stop (h : c.step data cur s = .ok (.stop outcome stack, s')) :
    c.loop data cur s = .ok ((outcome, stack), s') := by
  rw [loop, bind_of_ok h]
  rfl

/-- A walk goes on from each cursor that it reaches, if every step moves it forward. -/
theorem loop_of_reaches (h : c.Reaches data cur₀ s₀ cur s)
    (hdec : ∀ cur s cur' s', c.Reaches data cur₀ s₀ cur s →
      c.step data cur s = .ok (.goto cur', s') → c.remaining cur' < c.remaining cur) :
    c.loop data cur₀ s₀ = c.loop data cur s := by
  have hall : ∀ p : Cursor ω × Session ω, Relation.ReflTransGen (c.GoesOn data) (cur₀, s₀) p →
      c.loop data cur₀ s₀ = c.loop data p.1 p.2 := by
    intro p hp
    induction hp with
    | refl => rfl
    | @tail p q hreach hstep ih =>
      rw [ih, loop, bind_of_ok hstep]
      exact congrFun (if_pos (hdec p.1 p.2 q.1 q.2 hreach hstep)) q.2
  exact hall _ h

/-- What every transition keeps is known when the walk ends. -/
theorem loop_induction (Inv : Cursor ω → Session ω → Prop)
    (post : Outcome ω → EndingStack (Ending ω) → Session ω → Prop)
    (h : c.loop data cur₀ s₀ = .ok ((outcome, stack), s')) (hs₀ : s₀.response.halted = false)
    (hinit : Inv cur₀ s₀)
    (hgoto : ∀ cur s cur' s', s.response.halted = false → Inv cur s →
      c.Transition data cur s (.goto cur') s' → Inv cur' s')
    (hstop : ∀ cur s, s.response.halted = false → Inv cur s →
      c.Transition data cur s (.stop outcome stack) s' → post outcome stack s') :
    post outcome stack s' := by
  obtain ⟨cur, s, hreach, hstep⟩ := exists_stop_of_loop h
  obtain ⟨hs, hinv⟩ := hreach.invariant Inv hs₀ hinit fun cur s cur' s' _ => hgoto cur s cur' s'
  exact hstop cur s hs hinv (transition_of_step hs hstep)

/-- A walk says that it is halted exactly if the response is halted at its end. -/
theorem halted_iff_of_loop (h : c.loop data cur₀ s₀ = .ok ((outcome, stack), s'))
    (hs₀ : s₀.response.halted = false) : outcome = .halted ↔ s'.response.halted = true :=
  loop_induction (fun _ _ => True)
    (fun outcome _ s' => outcome = .halted ↔ s'.response.halted = true) h hs₀ trivial
    (fun _ _ _ _ _ _ _ => trivial) fun _ _ hs _ htrans => htrans.reports hs

/-- A run that returns has found the response halted, or is a walk from a stack without
endings. -/
theorem run_eq_ok {place : Place} (h : c.run data place s = .ok (outcome, s')) :
    (s.response.halted = true ∧ outcome = .halted ∧ s' = s) ∨
      s.response.halted = false ∧ ∃ stack,
        c.walk data place (EndingStack.ofDepth c.maxNesting) s = .ok ((outcome, stack), s') := by
  unfold run at h
  rw [isHalted_bind] at h
  cases hs : s.response.halted with
  | true =>
    rw [hs] at h
    cases h
    exact .inl ⟨rfl, rfl, rfl⟩
  | false =>
    rw [hs] at h
    obtain ⟨⟨outcome', stack⟩, s₁, hwalk, hpure⟩ := ok_of_bind h
    cases hpure
    exact .inr ⟨rfl, stack, hwalk⟩

theorem halted_iff_of_run {place : Place} (h : c.run data place s = .ok (outcome, s')) :
    outcome = .halted ↔ s'.response.halted = true := by
  rcases run_eq_ok h with ⟨hs, rfl, rfl⟩ | ⟨hs, stack, hwalk⟩
  · exact iff_of_true rfl hs
  · exact halted_iff_of_loop hwalk hs

end Component

end HtmlTemplate
