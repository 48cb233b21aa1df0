import HtmlTemplate.Proofs.Rendering.Running

/-!
# Computations that do not fail

The faults of a rendering computation are those of the library, which would be
mistakes in it, and the one that callbacks raise by themselves. A computation
meets a postcondition if it never ends in a fault of the library and whatever it
returns has the property.

Results:
1. `meets_bind`, `meets_unless_halted`: the rules for sequences.
2. `safe_runEndings`: endings are run safely if each of them is safe.
3. `EndingStack.Safe`: a stack with a frame for each wrapper that may be open, and
   endings that do not fail.
-/

namespace HtmlTemplate

open Render

variable {ω δ α β : Type}

/-! ## 1. Computations -/

/-- From any session, what the computation returns has the property, and the only fault
that it may end in is the one that callbacks raise. -/
structure Render.Meets (x : Render ω α) (post : α → Prop) : Prop where
  fault : ∀ s f, x s = .error f → f = .overflow
  result : ∀ s a s', x s = .ok (a, s') → post a

/-- The computation does not fail in the library. -/
def Render.Safe (x : Render ω α) : Prop := x.Meets fun _ => True

/-- The callback does not fail in the library, and registers endings that do not. -/
def WrapperRender.Safe (x : WrapperRender ω α) : Prop :=
  ∀ scope, (∀ ending ∈ scope.endings, Render.Safe ending) →
    (x.run scope).Meets fun p => ∀ ending ∈ p.2.endings, Render.Safe ending

/-- The callback does not fail in the library. -/
def AttributeRender.Safe (x : AttributeRender ω α) : Prop :=
  ∀ scope, Render.Safe (x.run scope)

section Meets

variable {x : Render ω α} {f : α → Render ω β} {post post' : α → Prop} {last : β → Prop}

theorem Render.Meets.imp (h : x.Meets post) (himp : ∀ a, post a → post' a) : x.Meets post' :=
  ⟨h.fault, fun s a s' hx => himp a (h.result s a s' hx)⟩

theorem Render.Meets.safe (h : x.Meets post) : Safe x := h.imp fun _ _ => trivial

theorem meets_pure {a : α} (h : post a) : (pure a : Render ω α).Meets post := by
  constructor
  · intro s f hx
    cases hx
  · intro s b s' hx
    cases hx
    exact h

/-- A computation that returns from every session. -/
theorem meets_of_ok (h : ∀ s, ∃ a s', x s = .ok (a, s') ∧ post a) : x.Meets post := by
  constructor
  · intro s f hx
    obtain ⟨a, s₁, ha, -⟩ := h s
    rw [ha] at hx
    cases hx
  · intro s b s' hx
    obtain ⟨a, s₁, ha, hpost⟩ := h s
    rw [ha] at hx
    cases hx
    exact hpost

theorem meets_bind (hx : x.Meets post) (hf : ∀ a, post a → (f a).Meets last) :
    (x >>= f).Meets last := by
  constructor
  · intro s e hr
    cases h : x s with
    | error e' =>
      rw [bind_of_error h] at hr
      cases hr
      exact hx.fault s e h
    | ok p =>
      rw [bind_of_ok h] at hr
      exact (hf p.1 (hx.result s p.1 p.2 h)).fault p.2 e hr
  · intro s b s' hr
    obtain ⟨a, s₁, ha, hb⟩ := ok_of_bind hr
    exact (hf a (hx.result s a s₁ ha)).result s₁ b s' hb

/-- What follows a computation does not depend on what it returns. -/
theorem meets_bind_safe (hx : Safe x) (hf : ∀ a, (f a).Meets last) : (x >>= f).Meets last :=
  meets_bind hx fun a _ => hf a

theorem safe_modifyResponse (g : Response → Response) :
    Safe (Render.modifyResponse g : Render ω Unit) :=
  meets_of_ok fun _ => ⟨_, _, rfl, trivial⟩

theorem safe_isHalted : Safe (Render.isHalted : Render ω Bool) :=
  meets_of_ok fun _ => ⟨_, _, rfl, trivial⟩

theorem safe_outputSize : Safe (Render.outputSize : Render ω Nat) :=
  meets_of_ok fun _ => ⟨_, _, rfl, trivial⟩

/-- Either the response is halted, or the computation goes on. -/
theorem meets_unless_halted {a : α} (ha : post a) (hx : x.Meets post) :
    (do if ← Render.isHalted then return a else x).Meets post := by
  refine meets_bind_safe safe_isHalted ?_
  intro halted
  cases halted with
  | true => exact meets_pure ha
  | false => exact hx

theorem safe_runEndings {endings : List (Ending ω)} (h : ∀ ending ∈ endings, Safe ending) :
    Safe (runEndings endings) := by
  induction endings with
  | nil => exact meets_pure trivial
  | cons ending rest ih =>
    refine meets_bind_safe safe_isHalted ?_
    intro halted
    cases halted with
    | true => exact meets_pure trivial
    | false =>
      exact meets_bind_safe (h ending List.mem_cons_self) fun _ =>
        ih fun e he => h e (List.mem_cons_of_mem _ he)

end Meets

/-! ## 2. Stacks -/

/-- The stack has the given number of frames, and none of its endings fails. -/
structure EndingStack.Safe (stack : EndingStack (Ending ω)) (capacity : Nat) : Prop where
  capacity_eq : stack.depthCapacity = capacity
  endings : ∀ frame ∈ stack.frames, ∀ ending ∈ frame, Render.Safe ending

namespace EndingStack.Safe

variable {stack : EndingStack (Ending ω)} {capacity depth : Nat}

theorem ofDepth (capacity : Nat) :
    EndingStack.Safe (EndingStack.ofDepth capacity : EndingStack (Ending ω)) capacity :=
  ⟨depthCapacity_ofDepth capacity, Each.ofDepth capacity⟩

theorem setFrame (h : stack.Safe capacity) (depth : Nat) {frame : List (Ending ω)}
    (hframe : ∀ ending ∈ frame, Render.Safe ending) :
    (stack.setFrame depth frame).Safe capacity :=
  ⟨(depthCapacity_setFrame stack depth frame).trans h.capacity_eq,
    Each.setFrame h.endings depth hframe⟩

/-- There is a frame for each wrapper that may be open. -/
theorem exists_frame (h : stack.Safe capacity) (hd : depth < capacity) :
    ∃ frame, stack.frame? depth = some frame ∧ ∀ ending ∈ frame, Render.Safe ending := by
  have hlt : depth < stack.frames.length := Nat.lt_of_lt_of_le hd (Nat.le_of_eq h.capacity_eq.symm)
  exact ⟨stack.frames[depth], List.getElem?_eq_getElem hlt, h.endings _ (List.getElem_mem hlt)⟩

theorem openEndings (h : stack.Safe capacity) (depth : Nat) :
    ∀ ending ∈ stack.openEndings depth, Render.Safe ending :=
  Each.openEndings h.endings depth

end EndingStack.Safe

end HtmlTemplate
