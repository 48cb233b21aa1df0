import Mathlib.Data.List.Forall2
import HtmlTemplate.Proofs.Rendering.Running

/-!
# Computations in two worlds

A render may be run in a world that has more to it than another one, such as things that renders
reuse. If only what the worlds have in common decides what is done, then the render does the same
in both: it ends in the same fault, or it returns the same, writes the same and leaves worlds that
belong to each other again. The computation of the first world then `Mirrors` that of the second.

Which worlds belong to each other is a parameter `r`. In a single world, with equality for `r`,
only equal computations mirror each other.

Results:
1. `Render.Mirrors`, `WrapperRender.Mirrors`, `AttributeRender.Mirrors`: what is compared, and
   rules for sequences (`endsAlike_bind`, `mirrors_bind`).
2. `mirrors_runEndings`, `mirrors_addEnding` and others: what the library and callbacks do.
3. `mirrors_eq_iff`: a single world.
-/

namespace HtmlTemplate

open Render

variable {ω' ω δ α' α β' β : Type} {r : ω' → ω → Prop}

/-! ## 1. Computations -/

/-- The sessions differ in their worlds only, which belong to each other. -/
structure Session.Mirrors (r : ω' → ω → Prop) (s' : Session ω') (s : Session ω) : Prop where
  response_eq : s'.response = s.response
  world : r s'.world s.world

/-- Both runs end in the same fault, or both return what is in the relation `post`. -/
inductive Render.EndsAlike (r : ω' → ω → Prop) (post : α' → α → Prop) :
    Except Fault (α' × Session ω') → Except Fault (α × Session ω) → Prop
  | fault (f : Fault) : EndsAlike r post (.error f) (.error f)
  | result {a' : α'} {a : α} {s' : Session ω'} {s : Session ω} :
      post a' a → s'.Mirrors r s → EndsAlike r post (.ok (a', s')) (.ok (a, s))

/-- The first computation does in its world what the second one does in its own. -/
def Render.Mirrors (r : ω' → ω → Prop) (x' : Render ω' α') (x : Render ω α)
    (post : α' → α → Prop) : Prop :=
  ∀ s' s, s'.Mirrors r s → EndsAlike r post (x' s') (x s)

/-- Two lists of endings that do the same one by one. -/
abbrev EndingsMirror (r : ω' → ω → Prop) : List (Ending ω') → List (Ending ω) → Prop :=
  List.Forall₂ fun ending' ending => Render.Mirrors r ending' ending (· = ·)

/-- The same has been asked for. -/
structure WrapperScope.Mirrors (r : ω' → ω → Prop) (scope' : WrapperScope ω')
    (scope : WrapperScope ω) : Prop where
  endings : EndingsMirror r scope'.endings scope.endings
  skipContent_eq : scope'.skipContent = scope.skipContent

/-- The callback does in its world what the other one does, and asks for the same. -/
def WrapperRender.Mirrors (r : ω' → ω → Prop) (x' : WrapperRender ω' α)
    (x : WrapperRender ω α) : Prop :=
  ∀ scope' scope, scope'.Mirrors r scope →
    Render.Mirrors r (x'.run scope') (x.run scope) fun p' p => p'.1 = p.1 ∧ p'.2.Mirrors r p.2

def AttributeRender.Mirrors (r : ω' → ω → Prop) (x' : AttributeRender ω' α)
    (x : AttributeRender ω α) : Prop :=
  ∀ scope, Render.Mirrors r (x'.run scope) (x.run scope) (· = ·)

/-- Callbacks of the same kind that do the same with all data. -/
inductive Callback.Mirrors (r : ω' → ω → Prop) : Callback ω' δ → Callback ω δ → Prop
  | plain {run' : δ → Render ω' Unit} {run : δ → Render ω Unit} :
      (∀ data, Render.Mirrors r (run' data) (run data) (· = ·)) →
      Callback.Mirrors r (.plain run') (.plain run)
  | wrapper {run' : δ → WrapperRender ω' Unit} {run : δ → WrapperRender ω Unit} :
      (∀ data, (run' data).Mirrors r (run data)) → Callback.Mirrors r (.wrapper run') (.wrapper run)
  | attributes {run' : δ → AttributeRender ω' Unit} {run : δ → AttributeRender ω Unit} :
      (∀ data, (run' data).Mirrors r (run data)) →
      Callback.Mirrors r (.attributes run') (.attributes run)

theorem Callback.Mirrors.kind_eq {callback' : Callback ω' δ} {callback : Callback ω δ}
    (h : callback'.Mirrors r callback) : callback'.kind = callback.kind := by
  cases h with
  | plain | wrapper | attributes => rfl

section Rules

variable {x' : Render ω' α'} {x : Render ω α} {post : α' → α → Prop} {last : β' → β → Prop}
  {s' : Session ω'} {s : Session ω}

theorem endsAlike_bind {f' : α' → Render ω' β'} {f : α → Render ω β}
    (hx : EndsAlike r post (x' s') (x s))
    (hf : ∀ a' a t' t, x s = .ok (a, t) → post a' a → t'.Mirrors r t →
      EndsAlike r last (f' a' t') (f a t)) :
    EndsAlike r last ((x' >>= f') s') ((x >>= f) s) := by
  show EndsAlike r last (x' s' >>= fun p => f' p.1 p.2) (x s >>= fun p => f p.1 p.2)
  generalize x' s' = end' at hx
  generalize x s = end₀ at hx hf
  cases hx with
  | fault f => exact .fault f
  | result hpost ht => exact hf _ _ _ _ rfl hpost ht

theorem mirrors_pure {a' : α'} {a : α} (h : post a' a) :
    Mirrors r (pure a' : Render ω' α') (pure a : Render ω α) post :=
  fun _ _ hs => .result h hs

theorem mirrors_throw (f : Fault) :
    Mirrors r (throw f : Render ω' α') (throw f : Render ω α) post :=
  fun _ _ _ => .fault f

theorem mirrors_bind {f' : α' → Render ω' β'} {f : α → Render ω β} (hx : Mirrors r x' x post)
    (hf : ∀ a' a, post a' a → Mirrors r (f' a') (f a) last) :
    Mirrors r (x' >>= f') (x >>= f) last :=
  fun s' s hs => endsAlike_bind (hx s' s hs) fun a' a t' t _ hpost ht => hf a' a hpost t' t ht

theorem Render.Mirrors.imp {post' : α' → α → Prop} (h : Mirrors r x' x post)
    (himp : ∀ a' a, post a' a → post' a' a) : Mirrors r x' x post' := by
  intro s' s hs
  have hend := h s' s hs
  generalize x' s' = end' at hend
  generalize x s = end₀ at hend
  cases hend with
  | fault f => exact .fault f
  | result hpost ht => exact .result (himp _ _ hpost) ht

/-- What is known of whatever the second computation returns may be used. -/
theorem Render.Mirrors.and_result {p : α → Prop} (h : Mirrors r x' x post)
    (hp : ∀ s a t, x s = .ok (a, t) → p a) : Mirrors r x' x fun a' a => post a' a ∧ p a := by
  intro s' s hs
  have hend := h s' s hs
  have hknown := hp s
  generalize x' s' = end' at hend
  generalize x s = end₀ at hend hknown
  cases hend with
  | fault f => exact .fault f
  | result hpost ht => exact .result ⟨hpost, hknown _ _ rfl⟩ ht

/-- Something is done in the first world only, which leaves worlds that belong to each other. -/
theorem mirrors_left {y : Render ω' β'} {p : β' → Prop} {f' : β' → Render ω' α'}
    (hy : ∀ s' s, s'.Mirrors r s → ∃ b t', y s' = .ok (b, t') ∧ p b ∧ t'.Mirrors r s)
    (h : ∀ b, p b → Mirrors r (f' b) x post) : Mirrors r (y >>= f') x post := by
  intro s' s hs
  obtain ⟨b, t', hrun, hb, ht⟩ := hy s' s hs
  rw [bind_of_ok hrun]
  exact h b hb t' s ht

theorem mirrors_modifyResponse (f : Response → Response) :
    Mirrors r (Render.modifyResponse f : Render ω' Unit) (Render.modifyResponse f) (· = ·) :=
  fun _ _ hs => .result rfl ⟨congrArg f hs.response_eq, hs.world⟩

theorem mirrors_isHalted :
    Mirrors r (Render.isHalted : Render ω' Bool) Render.isHalted (· = ·) :=
  fun _ _ hs => .result (congrArg Response.halted hs.response_eq) hs

theorem mirrors_outputSize :
    Mirrors r (Render.outputSize : Render ω' Nat) Render.outputSize (· = ·) :=
  fun _ _ hs => .result (congrArg Response.size hs.response_eq) hs

/-- Either the response is halted, or both computations go on. -/
theorem mirrors_unless_halted {a' : α'} {a : α} (ha : post a' a) (h : Mirrors r x' x post) :
    Mirrors r (do if ← Render.isHalted then return a' else x')
      (do if ← Render.isHalted then return a else x) post := by
  refine mirrors_bind mirrors_isHalted ?_
  rintro halted _ rfl
  cases halted with
  | true => exact mirrors_pure ha
  | false => exact h

/-- What is looked up is there in both worlds or in none. -/
theorem mirrors_elim {found' : Option α'} {found : Option α} (h : Option.Rel post found' found)
    (fault : Fault) :
    Mirrors r (found'.elim (throw fault) pure : Render ω' α')
      (found.elim (throw fault) pure : Render ω α) post := by
  cases h with
  | none => exact mirrors_throw fault
  | some h => exact mirrors_pure h

theorem mirrors_runEndings {endings' : List (Ending ω')} {endings : List (Ending ω)}
    (h : EndingsMirror r endings' endings) :
    Mirrors r (runEndings endings') (runEndings endings) (· = ·) := by
  induction h with
  | nil => exact mirrors_pure rfl
  | cons hfirst _ ih =>
    refine mirrors_bind mirrors_isHalted ?_
    rintro halted _ rfl
    cases halted with
    | true => exact mirrors_pure rfl
    | false => exact mirrors_bind hfirst fun _ _ _ => ih

end Rules

/-! ## 2. What callbacks do -/

namespace WrapperRender

theorem mirrors_lift {x' : Render ω' α} {x : Render ω α} (h : Render.Mirrors r x' x (· = ·)) :
    WrapperRender.Mirrors r (StateT.lift x') (StateT.lift x) :=
  fun _ _ hscope => mirrors_bind h fun _ _ ha => mirrors_pure ⟨ha, hscope⟩

/-- A render in a callback may return what is not the same but belongs to each other. -/
theorem mirrors_lift_bind {x' : Render ω' α'} {x : Render ω α} {post : α' → α → Prop}
    {f' : α' → WrapperRender ω' β} {f : α → WrapperRender ω β}
    (hx : Render.Mirrors r x' x post) (hf : ∀ a' a, post a' a → (f' a').Mirrors r (f a)) :
    WrapperRender.Mirrors r (StateT.lift x' >>= f') (StateT.lift x >>= f) := by
  intro scope' scope hscope
  rw [StateT.run_bind, StateT.run_bind, StateT.run_lift, StateT.run_lift, bind_assoc, bind_assoc]
  exact mirrors_bind hx fun a' a ha => hf a' a ha scope' scope hscope

theorem mirrors_bind {x' : WrapperRender ω' α} {x : WrapperRender ω α}
    {f' : α → WrapperRender ω' β} {f : α → WrapperRender ω β} (hx : x'.Mirrors r x)
    (hf : ∀ a, (f' a).Mirrors r (f a)) : (x' >>= f').Mirrors r (x >>= f) := by
  intro scope' scope hscope
  rw [StateT.run_bind, StateT.run_bind]
  refine HtmlTemplate.mirrors_bind (hx scope' scope hscope) ?_
  rintro ⟨a, scope₁'⟩ ⟨_, scope₁⟩ ⟨rfl, hscope₁⟩
  exact hf a scope₁' scope₁ hscope₁

theorem mirrors_modify {f' : WrapperScope ω' → WrapperScope ω'}
    {f : WrapperScope ω → WrapperScope ω}
    (h : ∀ scope' scope, scope'.Mirrors r scope → (f' scope').Mirrors r (f scope)) :
    (modify f' : WrapperRender ω' Unit).Mirrors r (modify f : WrapperRender ω Unit) :=
  fun _ _ hscope => mirrors_pure ⟨rfl, h _ _ hscope⟩

theorem mirrors_addEnding {ending' : Ending ω'} {ending : Ending ω}
    (h : Render.Mirrors r ending' ending (· = ·)) :
    (addEnding ending').Mirrors r (addEnding ending) :=
  mirrors_modify fun _ _ hscope => ⟨.cons h hscope.endings, hscope.skipContent_eq⟩

theorem mirrors_skipContent :
    (skipContent : WrapperRender ω' Unit).Mirrors r (skipContent : WrapperRender ω Unit) :=
  mirrors_modify fun _ _ hscope => ⟨hscope.endings, rfl⟩

end WrapperRender

namespace AttributeRender

theorem mirrors_lift {x' : Render ω' α} {x : Render ω α} (h : Render.Mirrors r x' x (· = ·)) :
    AttributeRender.Mirrors r (StateT.lift x') (StateT.lift x) :=
  fun scope => mirrors_bind h fun _ _ ha => mirrors_pure (congrArg (·, scope) ha)

theorem mirrors_bind {x' : AttributeRender ω' α} {x : AttributeRender ω α}
    {f' : α → AttributeRender ω' β} {f : α → AttributeRender ω β} (hx : x'.Mirrors r x)
    (hf : ∀ a, (f' a).Mirrors r (f a)) : (x' >>= f').Mirrors r (x >>= f) := by
  intro scope
  rw [StateT.run_bind, StateT.run_bind]
  refine HtmlTemplate.mirrors_bind (hx scope) ?_
  rintro ⟨a, scope₁⟩ _ rfl
  exact hf a scope₁

theorem mirrors_skipContent :
    (skipContent : AttributeRender ω' Unit).Mirrors r (skipContent : AttributeRender ω Unit) :=
  fun _ => mirrors_pure rfl

theorem mirrors_skipElement :
    (skipElement : AttributeRender ω' Unit).Mirrors r (skipElement : AttributeRender ω Unit) :=
  fun _ => mirrors_pure rfl

end AttributeRender

/-! ## 3. A single world -/

section Single

theorem Session.mirrors_eq_iff {s' s : Session ω} : s'.Mirrors (· = ·) s ↔ s' = s := by
  constructor
  · rintro ⟨hresponse, hworld⟩
    cases s'
    cases s
    cases hresponse
    cases hworld
    rfl
  · rintro rfl
    exact ⟨rfl, rfl⟩

theorem endsAlike_eq_iff {end' end₀ : Except Fault (α × Session ω)} :
    EndsAlike (· = ·) (· = ·) end' end₀ ↔ end' = end₀ := by
  constructor
  · intro h
    cases h with
    | fault f => rfl
    | result ha hs =>
      cases ha
      cases Session.mirrors_eq_iff.mp hs
      rfl
  · rintro rfl
    cases end' with
    | error f => exact .fault f
    | ok p => exact .result rfl (Session.mirrors_eq_iff.mpr rfl)

/-- In a single world only equal computations mirror each other. -/
theorem mirrors_eq_iff {x' x : Render ω α} :
    Mirrors (· = ·) x' x (· = ·) ↔ x' = x := by
  constructor
  · intro h
    funext s
    exact endsAlike_eq_iff.mp (h s s (Session.mirrors_eq_iff.mpr rfl))
  · rintro rfl s' s hs
    cases Session.mirrors_eq_iff.mp hs
    exact endsAlike_eq_iff.mpr rfl

theorem endingsMirror_eq_iff {endings' endings : List (Ending ω)} :
    EndingsMirror (· = ·) endings' endings ↔ endings' = endings := by
  rw [EndingsMirror, show (fun ending' ending : Ending ω =>
    Render.Mirrors (· = ·) ending' ending (· = ·)) = (· = ·) from
      funext₂ fun _ _ => propext mirrors_eq_iff]
  exact List.forall₂_eq_eq_eq ▸ Iff.rfl

/-- A callback mirrors itself. -/
theorem Callback.mirrors_self (callback : Callback ω δ) : callback.Mirrors (· = ·) callback := by
  cases callback with
  | plain run => exact .plain fun data => mirrors_eq_iff.mpr rfl
  | wrapper run =>
    refine .wrapper fun data scope' scope hscope => ?_
    obtain rfl : scope' = scope := by
      obtain ⟨endings', skips'⟩ := scope'
      obtain ⟨endings, skips⟩ := scope
      obtain ⟨hendings, hskips⟩ := hscope
      cases endingsMirror_eq_iff.mp hendings
      cases hskips
      rfl
    refine (mirrors_eq_iff.mpr rfl).imp ?_
    rintro p _ rfl
    exact ⟨rfl, endingsMirror_eq_iff.mpr rfl, rfl⟩
  | attributes run => exact .attributes fun data scope => mirrors_eq_iff.mpr rfl

end Single

end HtmlTemplate
