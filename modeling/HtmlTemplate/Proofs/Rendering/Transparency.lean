import HtmlTemplate.Proofs.Rendering.Api
import HtmlTemplate.Proofs.Rendering.Pooling

/-!
# Renders do not see the pools

Callbacks, endings and payloads are computations too, and they render components and wrappers with
the same pools. `Render.OnPools` says of a computation that it does with the pools what another
one does without: it is made of the same parts, and where the other one renders something, it
renders that with the pools. In between the pools may be used by others.

What such a computation returns, writes and does to the world is the same, whatever the pools have
been through: how they are set up, which renders have used them, and what a render that was halted
has left in what it returned. So a response from the pools says what a new one would say.

Results:
1. `Render.OnPools`, `WrapperRender.OnPools`, `AttributeRender.OnPools`, `Callback.OnPools`:
   computations with the pools and without.
2. `Render.OnPools.mirrors`: they do the same.
3. `Render.UsesApi.exists_onPools`: whatever is made of the functions for callbacks can be done
   with the pools.
4. `serveAll_alike`: requests that are answered one after the other.
5. `rendering_ignores_pools`: what is taken from the pools, walks, renders and requests.
-/

namespace HtmlTemplate

open Render PoolRender

variable {κ ω : Type}

/-! ## 1. With the pools and without -/

/-- The session in a world that holds the pools. -/
def Session.onPools (s : Session ω) (pools : Pools κ) : Session (Pooled κ ω) :=
  { response := s.response, world := { pools := pools, world := s.world } }

/-- The session without the pools. -/
def Session.withoutPools (s : Session (Pooled κ ω)) : Session ω :=
  { response := s.response, world := s.world.world }

/-- The computation, which does not use the pools. -/
def Render.besidePools {α : Type} (x : Render ω α) : PoolRender κ ω α := fun s =>
  (x s.withoutPools).map fun p => (p.1, p.2.onPools s.world.pools)

section OnPools

variable (store : EndingStore κ ω)

mutual

/-- The first computation does with the pools what the second one does without. -/
inductive Render.OnPools : {α : Type} → PoolRender κ ω α → Render ω α → Prop
  /-- Anything that is done without the pools. -/
  | beside {α : Type} (x : Render ω α) : Render.OnPools x.besidePools x
  /-- The pools are used by others. -/
  | meanwhile {f : Pools κ → Pools κ} : (∀ pools, pools.Arises → (f pools).Arises) →
      Render.OnPools (usePools fun pools => ((), f pools)) (pure ())
  | bind {α β : Type} {x' : PoolRender κ ω α} {x : Render ω α} {f' : α → PoolRender κ ω β}
      {f : α → Render ω β} : Render.OnPools x' x → (∀ a, Render.OnPools (f' a) (f a)) →
      Render.OnPools (x' >>= f') (x >>= f)
  /-- A component is inserted. -/
  | insert {δ : Type} {source : String} {declarations' : List (Declaration (Pooled κ ω) δ)}
      {declarations : List (Declaration ω δ)} {c' : Component (Pooled κ ω) δ}
      {c : Component ω δ} (data : δ) : Component.compile source declarations' = .ok c' →
      Component.compile source declarations = .ok c → DeclaredOnPools declarations' declarations →
      Render.OnPools (c'.renderOnPools store data) (c.render data)
  /-- The part of a wrapper before its content marker is inserted. -/
  | insertBefore {δ : Type} {source : String}
      {declarations' : List (Declaration (Pooled κ ω) δ)} {declarations : List (Declaration ω δ)}
      {w' : Wrapper (Pooled κ ω) δ} {w : Wrapper ω δ} (data : δ) :
      Wrapper.compile source declarations' = .ok w' →
      Wrapper.compile source declarations = .ok w → DeclaredOnPools declarations' declarations →
      Render.OnPools (w'.preContent.renderOnPools store data) (w.preContent.render data)
  /-- The part of a wrapper behind its content marker is inserted. -/
  | insertBehind {δ : Type} {source : String}
      {declarations' : List (Declaration (Pooled κ ω) δ)} {declarations : List (Declaration ω δ)}
      {w' : Wrapper (Pooled κ ω) δ} {w : Wrapper ω δ} (data : δ) :
      Wrapper.compile source declarations' = .ok w' →
      Wrapper.compile source declarations = .ok w → DeclaredOnPools declarations' declarations →
      Render.OnPools (w'.postContent.renderOnPools store data) (w.postContent.render data)
  /-- A wrapper is inserted around a payload. -/
  | insertWrapped {δ : Type} {source : String}
      {declarations' : List (Declaration (Pooled κ ω) δ)} {declarations : List (Declaration ω δ)}
      {w' : Wrapper (Pooled κ ω) δ} {w : Wrapper ω δ} (data : δ)
      {payload' : PoolRender κ ω Unit} {payload : Render ω Unit} :
      Wrapper.compile source declarations' = .ok w' →
      Wrapper.compile source declarations = .ok w → DeclaredOnPools declarations' declarations →
      Render.OnPools payload' payload →
      Render.OnPools (w'.renderOnPools store data payload') (w.render data payload)

/-- The same of computations at a wrapper start, whose endings use the pools. -/
inductive WrapperRender.OnPools :
    {α : Type} → WrapperRender (Pooled κ ω) α → WrapperRender ω α → Prop
  | lift {α : Type} {x' : PoolRender κ ω α} {x : Render ω α} : Render.OnPools x' x →
      WrapperRender.OnPools (StateT.lift x') (StateT.lift x)
  | bind {α β : Type} {x' : WrapperRender (Pooled κ ω) α} {x : WrapperRender ω α}
      {f' : α → WrapperRender (Pooled κ ω) β} {f : α → WrapperRender ω β} :
      WrapperRender.OnPools x' x → (∀ a, WrapperRender.OnPools (f' a) (f a)) →
      WrapperRender.OnPools (x' >>= f') (x >>= f)
  | addEnding {ending' : Ending (Pooled κ ω)} {ending : Ending ω} :
      Render.OnPools ending' ending →
      WrapperRender.OnPools (WrapperRender.addEnding ending') (WrapperRender.addEnding ending)
  | skipContent : WrapperRender.OnPools WrapperRender.skipContent WrapperRender.skipContent
  | wrap {δ : Type} {source : String} {declarations' : List (Declaration (Pooled κ ω) δ)}
      {declarations : List (Declaration ω δ)} {w' : Wrapper (Pooled κ ω) δ} {w : Wrapper ω δ}
      (data : δ) : Wrapper.compile source declarations' = .ok w' →
      Wrapper.compile source declarations = .ok w → DeclaredOnPools declarations' declarations →
      WrapperRender.OnPools (WrapperRender.wrapOnPools store w' data) (WrapperRender.wrap w data)

/-- The same of computations in a start tag. -/
inductive AttributeRender.OnPools :
    {α : Type} → AttributeRender (Pooled κ ω) α → AttributeRender ω α → Prop
  | lift {α : Type} {x' : PoolRender κ ω α} {x : Render ω α} : Render.OnPools x' x →
      AttributeRender.OnPools (StateT.lift x') (StateT.lift x)
  | bind {α β : Type} {x' : AttributeRender (Pooled κ ω) α} {x : AttributeRender ω α}
      {f' : α → AttributeRender (Pooled κ ω) β} {f : α → AttributeRender ω β} :
      AttributeRender.OnPools x' x → (∀ a, AttributeRender.OnPools (f' a) (f a)) →
      AttributeRender.OnPools (x' >>= f') (x >>= f)
  | skipContent : AttributeRender.OnPools AttributeRender.skipContent AttributeRender.skipContent
  | skipElement : AttributeRender.OnPools AttributeRender.skipElement AttributeRender.skipElement

/-- The same of callbacks, whatever data they are given. -/
inductive Callback.OnPools : {δ : Type} → Callback (Pooled κ ω) δ → Callback ω δ → Prop
  | plain {δ : Type} {run' : δ → PoolRender κ ω Unit} {run : δ → Render ω Unit} :
      (∀ data, Render.OnPools (run' data) (run data)) →
      Callback.OnPools (.plain run') (.plain run)
  | wrapper {δ : Type} {run' : δ → WrapperRender (Pooled κ ω) Unit}
      {run : δ → WrapperRender ω Unit} :
      (∀ data, WrapperRender.OnPools (run' data) (run data)) →
      Callback.OnPools (.wrapper run') (.wrapper run)
  | attributes {δ : Type} {run' : δ → AttributeRender (Pooled κ ω) Unit}
      {run : δ → AttributeRender ω Unit} :
      (∀ data, AttributeRender.OnPools (run' data) (run data)) →
      Callback.OnPools (.attributes run') (.attributes run)

/-- The same markers are declared, and the callbacks of the first list use the pools. -/
inductive DeclaredOnPools :
    {δ : Type} → List (Declaration (Pooled κ ω) δ) → List (Declaration ω δ) → Prop
  | nil {δ : Type} :
      DeclaredOnPools ([] : List (Declaration (Pooled κ ω) δ)) ([] : List (Declaration ω δ))
  | fixed {δ : Type} {declarations' : List (Declaration (Pooled κ ω) δ)}
      {declarations : List (Declaration ω δ)} (name : String) (staticText : Option String) :
      DeclaredOnPools declarations' declarations →
      DeclaredOnPools (⟨name, staticText, none⟩ :: declarations')
        (⟨name, staticText, none⟩ :: declarations)
  | called {δ : Type} {declarations' : List (Declaration (Pooled κ ω) δ)}
      {declarations : List (Declaration ω δ)} (name : String) (staticText : Option String)
      {callback' : Callback (Pooled κ ω) δ} {callback : Callback ω δ} :
      Callback.OnPools callback' callback → DeclaredOnPools declarations' declarations →
      DeclaredOnPools (⟨name, staticText, some callback'⟩ :: declarations')
        (⟨name, staticText, some callback⟩ :: declarations)

end

end OnPools

/-! ## 2. They do the same -/

theorem mirrors_besidePools {α : Type} (x : Render ω α) :
    Mirrors Pooled.Beside (x.besidePools : PoolRender κ ω α) x (· = ·) := by
  intro s' s hs
  have hbare : s'.withoutPools = s := by
    obtain ⟨response, pools, world⟩ := s'
    obtain ⟨_, _⟩ := s
    obtain ⟨rfl, rfl, -⟩ := hs
    rfl
  rw [besidePools, hbare]
  cases x s with
  | error f => exact .fault f
  | ok p => exact .result rfl ⟨rfl, rfl, hs.world.arises⟩

theorem mirrors_meanwhile {f : Pools κ → Pools κ}
    (hf : ∀ pools, pools.Arises → (f pools).Arises) :
    Mirrors Pooled.Beside (usePools fun pools => ((), f pools)) (pure () : Render ω Unit)
      (· = ·) := by
  rw [← bind_pure (usePools _)]
  exact mirrors_usePools (p := fun _ => True) (fun pools h => ⟨trivial, hf pools h⟩)
    fun _ _ => mirrors_pure rfl

section Compiled

variable {δ : Type} {source : String} {declarations' : List (Declaration (Pooled κ ω) δ)}
  {declarations : List (Declaration ω δ)}
  (hd : List.Forall₂ (Declaration.Matches (Callback.Mirrors Pooled.Beside)) declarations'
    declarations)
include hd

theorem Component.matches_of_compile {c' : Component (Pooled κ ω) δ} {c : Component ω δ}
    (h' : Component.compile source declarations' = .ok c')
    (h : Component.compile source declarations = .ok c) :
    c'.Matches (Callback.Mirrors Pooled.Beside) c :=
  (matches_compile (fun _ _ => Callback.Mirrors.kind_eq) hd source).of_ok h' h

theorem Wrapper.matches_of_compile {w' : Wrapper (Pooled κ ω) δ} {w : Wrapper ω δ}
    (h' : Wrapper.compile source declarations' = .ok w')
    (h : Wrapper.compile source declarations = .ok w) :
    w'.Matches (Callback.Mirrors Pooled.Beside) w :=
  (Wrapper.matches_compile (fun _ _ => Callback.Mirrors.kind_eq) hd source).of_ok h' h

end Compiled

variable {store : EndingStore κ ω}

mutual

theorem Render.OnPools.mirrors {α : Type} {x' : PoolRender κ ω α} {x : Render ω α} :
    Render.OnPools store x' x → Mirrors Pooled.Beside x' x (· = ·)
  | .beside x => mirrors_besidePools x
  | .meanwhile hf => mirrors_meanwhile hf
  | .bind hx hf => mirrors_bind hx.mirrors fun a' _ h => h ▸ (hf a').mirrors
  | .insert _ h' h hd =>
    Component.mirrors_renderOnPools (Component.matches_of_compile hd.matched h' h)
      (Component.wellFormed_of_compile h)
  | .insertBefore _ h' h hd =>
    Component.mirrors_renderOnPools (Wrapper.matches_of_compile hd.matched h' h).preContent
      (Wrapper.wellFormed_of_compile h).preContent
  | .insertBehind _ h' h hd =>
    Component.mirrors_renderOnPools (Wrapper.matches_of_compile hd.matched h' h).postContent
      (Wrapper.wellFormed_of_compile h).postContent
  | .insertWrapped _ h' h hd hpayload =>
    Wrapper.mirrors_renderOnPools (Wrapper.matches_of_compile hd.matched h' h) h hpayload.mirrors

theorem WrapperRender.OnPools.mirrors {α : Type} {x' : WrapperRender (Pooled κ ω) α}
    {x : WrapperRender ω α} :
    WrapperRender.OnPools store x' x → x'.Mirrors Pooled.Beside x
  | .lift hx => WrapperRender.mirrors_lift hx.mirrors
  | .bind hx hf => WrapperRender.mirrors_bind hx.mirrors fun a => (hf a).mirrors
  | .addEnding h => WrapperRender.mirrors_addEnding h.mirrors
  | .skipContent => WrapperRender.mirrors_skipContent
  | .wrap _ h' h hd =>
    WrapperRender.mirrors_wrapOnPools (Wrapper.matches_of_compile hd.matched h' h) h

theorem AttributeRender.OnPools.mirrors {α : Type} {x' : AttributeRender (Pooled κ ω) α}
    {x : AttributeRender ω α} :
    AttributeRender.OnPools store x' x → x'.Mirrors Pooled.Beside x
  | .lift hx => AttributeRender.mirrors_lift hx.mirrors
  | .bind hx hf => AttributeRender.mirrors_bind hx.mirrors fun a => (hf a).mirrors
  | .skipContent => AttributeRender.mirrors_skipContent
  | .skipElement => AttributeRender.mirrors_skipElement

theorem Callback.OnPools.mirrors {δ : Type} {callback' : Callback (Pooled κ ω) δ}
    {callback : Callback ω δ} :
    Callback.OnPools store callback' callback → callback'.Mirrors Pooled.Beside callback
  | .plain h => .plain fun data => (h data).mirrors
  | .wrapper h => .wrapper fun data => (h data).mirrors
  | .attributes h => .attributes fun data => (h data).mirrors

theorem DeclaredOnPools.matched {δ : Type} {declarations' : List (Declaration (Pooled κ ω) δ)}
    {declarations : List (Declaration ω δ)} :
    DeclaredOnPools store declarations' declarations →
      List.Forall₂ (Declaration.Matches (Callback.Mirrors Pooled.Beside)) declarations'
        declarations
  | .nil => .nil
  | .fixed _ _ hrest => .cons ⟨rfl, rfl, .none⟩ hrest.matched
  | .called _ _ h hrest => .cons ⟨rfl, rfl, .some h.mirrors⟩ hrest.matched

end

/-! ## 3. Whatever uses the library -/

section Existence

variable {δ : Type} {declarations : List (Declaration ω δ)}

/-- The callbacks of a list of declarations can use the pools if each of them can. -/
theorem exists_declaredOnPools (h : ∀ d ∈ declarations, ∀ callback, d.callback = some callback →
      ∃ callback', Callback.OnPools store callback' callback) :
    ∃ declarations', DeclaredOnPools store declarations' declarations := by
  induction declarations with
  | nil => exact ⟨[], .nil⟩
  | cons d rest ih =>
    obtain ⟨hd, hrest⟩ := List.forall_mem_cons.mp h
    obtain ⟨rest', hrest'⟩ := ih hrest
    obtain ⟨name, staticText, callback?⟩ := d
    cases callback? with
    | none => exact ⟨_, .fixed name staticText hrest'⟩
    | some callback =>
      obtain ⟨callback', hcallback⟩ := hd callback rfl
      exact ⟨_, .called name staticText hcallback hrest'⟩

variable {source : String} (hd : ∀ d ∈ declarations, ∀ callback, d.callback = some callback →
  ∃ callback', Callback.OnPools store callback' callback)
include hd

theorem Component.exists_compile_onPools {c : Component ω δ}
    (h : Component.compile source declarations = .ok c) :
    ∃ declarations', ∃ c' : Component (Pooled κ ω) δ,
      DeclaredOnPools store declarations' declarations ∧
        Component.compile source declarations' = .ok c' := by
  obtain ⟨declarations', hdeclared⟩ := exists_declaredOnPools hd
  obtain ⟨c', hc', -⟩ := (matches_compile (fun _ _ => Callback.Mirrors.kind_eq)
    hdeclared.matched source).exists_ok h
  exact ⟨declarations', c', hdeclared, hc'⟩

theorem Wrapper.exists_compile_onPools {w : Wrapper ω δ}
    (h : Wrapper.compile source declarations = .ok w) :
    ∃ declarations', ∃ w' : Wrapper (Pooled κ ω) δ,
      DeclaredOnPools store declarations' declarations ∧
        Wrapper.compile source declarations' = .ok w' := by
  obtain ⟨declarations', hdeclared⟩ := exists_declaredOnPools hd
  obtain ⟨w', hw', -⟩ := (Wrapper.matches_compile (fun _ _ => Callback.Mirrors.kind_eq)
    hdeclared.matched source).exists_ok h
  exact ⟨declarations', w', hdeclared, hw'⟩

end Existence

mutual

/-- Whatever is made of the functions for callbacks can be done with the pools. -/
theorem Render.UsesApi.exists_onPools {α : Type} {x : Render ω α} :
    Render.UsesApi x → ∃ x', Render.OnPools store x' x
  | .call f => ⟨_, .beside _⟩
  | .overflow => ⟨_, .beside _⟩
  | .bind hx hf => by
    obtain ⟨x', hx'⟩ := hx.exists_onPools
    choose f' hf' using fun a => (hf a).exists_onPools
    exact ⟨_, .bind hx' hf'⟩
  | .insert data h hd => by
    obtain ⟨_, _, hdeclared, h'⟩ :=
      Component.exists_compile_onPools (fun d hmem => (hd d hmem).exists_onPools) h
    exact ⟨_, .insert data h' h hdeclared⟩
  | .insertBefore data h hd => by
    obtain ⟨_, _, hdeclared, h'⟩ :=
      Wrapper.exists_compile_onPools (fun d hmem => (hd d hmem).exists_onPools) h
    exact ⟨_, .insertBefore data h' h hdeclared⟩
  | .insertBehind data h hd => by
    obtain ⟨_, _, hdeclared, h'⟩ :=
      Wrapper.exists_compile_onPools (fun d hmem => (hd d hmem).exists_onPools) h
    exact ⟨_, .insertBehind data h' h hdeclared⟩
  | .insertWrapped data h hd hpayload => by
    obtain ⟨_, _, hdeclared, h'⟩ :=
      Wrapper.exists_compile_onPools (fun d hmem => (hd d hmem).exists_onPools) h
    obtain ⟨payload', hpayload'⟩ := hpayload.exists_onPools
    exact ⟨_, .insertWrapped data h' h hdeclared hpayload'⟩

theorem WrapperRender.UsesApi.exists_onPools {α : Type} {x : WrapperRender ω α} :
    WrapperRender.UsesApi x → ∃ x', WrapperRender.OnPools store x' x
  | .lift hx => by
    obtain ⟨x', hx'⟩ := hx.exists_onPools
    exact ⟨_, .lift hx'⟩
  | .bind hx hf => by
    obtain ⟨x', hx'⟩ := hx.exists_onPools
    choose f' hf' using fun a => (hf a).exists_onPools
    exact ⟨_, .bind hx' hf'⟩
  | .addEnding h => by
    obtain ⟨ending', hending'⟩ := h.exists_onPools
    exact ⟨_, .addEnding hending'⟩
  | .skipContent => ⟨_, .skipContent⟩
  | .wrap data h hd => by
    obtain ⟨_, _, hdeclared, h'⟩ :=
      Wrapper.exists_compile_onPools (fun d hmem => (hd d hmem).exists_onPools) h
    exact ⟨_, .wrap data h' h hdeclared⟩

theorem AttributeRender.UsesApi.exists_onPools {α : Type} {x : AttributeRender ω α} :
    AttributeRender.UsesApi x → ∃ x', AttributeRender.OnPools store x' x
  | .lift hx => by
    obtain ⟨x', hx'⟩ := hx.exists_onPools
    exact ⟨_, .lift hx'⟩
  | .bind hx hf => by
    obtain ⟨x', hx'⟩ := hx.exists_onPools
    choose f' hf' using fun a => (hf a).exists_onPools
    exact ⟨_, .bind hx' hf'⟩
  | .skipContent => ⟨_, .skipContent⟩
  | .skipElement => ⟨_, .skipElement⟩

theorem Declaration.UsesApi.exists_onPools {δ : Type} {d : Declaration ω δ} :
    Declaration.UsesApi d → ∀ callback, d.callback = some callback →
      ∃ callback', Callback.OnPools store callback' callback
  | .fixed hc => fun callback h => by
    cases hc.symm.trans h
  | .plain hc hrun => fun callback h => by
    cases hc.symm.trans h
    choose run' hrun' using fun data => (hrun data).exists_onPools
    exact ⟨_, .plain hrun'⟩
  | .wrapper hc hrun => fun callback h => by
    cases hc.symm.trans h
    choose run' hrun' using fun data => (hrun data).exists_onPools
    exact ⟨_, .wrapper hrun'⟩
  | .attributes hc hrun => fun callback h => by
    cases hc.symm.trans h
    choose run' hrun' using fun data => (hrun data).exists_onPools
    exact ⟨_, .attributes hrun'⟩

end

/-! ## 4. Requests -/

/-- What is answered with a new response. -/
def Render.answer (x : Render ω Unit) (world : ω) : Except Fault (Response × ω) := do
  let (_, s) ← x (.fresh world)
  return (s.response, s.world)

/-- What requests are answered with, one after the other. -/
def Render.answerAll : List (Render ω Unit) → ω → Except Fault (List Response × ω)
  | [], world => return ([], world)
  | x :: rest, world => do
    let (response, world) ← x.answer world
    let (responses, world) ← answerAll rest world
    return (response :: responses, world)

/-- What requests are answered with, one after the other, with responses from the pools. -/
def PoolRender.serveAll :
    List (PoolRender κ ω Unit) → Pooled κ ω → Except Fault (List Response × Pooled κ ω)
  | [], world => return ([], world)
  | x :: rest, world => do
    let (response, world) ← PoolRender.serve x world
    let (responses, world) ← serveAll rest world
    return (response :: responses, world)

/-- The same fault, or the same answer and the same world. The pools have come from new ones. -/
inductive AnsweredAlike {β : Type} : Except Fault (β × Pooled κ ω) → Except Fault (β × ω) → Prop
  | fault (f : Fault) : AnsweredAlike (.error f) (.error f)
  | answer (b : β) {world' : Pooled κ ω} {world : ω} : world'.Beside world →
      AnsweredAlike (.ok (b, world')) (.ok (b, world))

theorem AnsweredAlike.bind {β γ : Type} {x' : Except Fault (β × Pooled κ ω)}
    {x : Except Fault (β × ω)} {f' : β × Pooled κ ω → Except Fault (γ × Pooled κ ω)}
    {f : β × ω → Except Fault (γ × ω)} (h : AnsweredAlike x' x)
    (hf : ∀ b world' world, world'.Beside world → AnsweredAlike (f' (b, world')) (f (b, world))) :
    AnsweredAlike (x' >>= f') (x >>= f) := by
  cases h with
  | fault f => exact .fault f
  | answer b hworld => exact hf b _ _ hworld

theorem serve_alike {x' : PoolRender κ ω Unit} {x : Render ω Unit}
    (h : Mirrors Pooled.Beside x' x (· = ·)) {world' : Pooled κ ω} {world : ω}
    (hworld : world'.Beside world) : AnsweredAlike (serve x' world') (x.answer world) := by
  have hnew := hworld.arises.acquireResponse_eq
  have hrest := hworld.arises.acquireResponse
  unfold serve Render.answer
  generalize world'.pools.acquireResponse = taken at hnew hrest
  obtain ⟨response, pools⟩ := taken
  cases hnew
  have hend := h ⟨{}, pools, world'.world⟩ (.fresh world) ⟨rfl, hworld.world_eq, hrest⟩
  dsimp only
  generalize x' ⟨{}, pools, world'.world⟩ = end' at hend
  generalize x (.fresh world) = end₀ at hend
  cases hend with
  | fault f => exact .fault f
  | @result _ _ s' s _ hs =>
    show AnsweredAlike (.ok (s'.response, _)) (.ok (s.response, s.world))
    rw [hs.response_eq]
    exact .answer _ ⟨hs.world.world_eq, hs.world.arises.returnResponse _⟩

theorem serveAll_alike {xs' : List (PoolRender κ ω Unit)} {xs : List (Render ω Unit)}
    (h : List.Forall₂ (fun x' x => Mirrors Pooled.Beside x' x (· = ·)) xs' xs)
    {world' : Pooled κ ω} {world : ω} (hworld : world'.Beside world) :
    AnsweredAlike (serveAll xs' world') (answerAll xs world) := by
  induction h generalizing world' world with
  | nil => exact .answer [] hworld
  | cons hfirst _ ih =>
    refine (serve_alike hfirst hworld).bind fun response _ _ hworld₁ => ?_
    exact (ih hworld₁).bind fun responses _ _ hworld₂ => .answer _ hworld₂

/-! ## 5. What is rendered does not depend on the pools -/

/-- Whatever the settings of the pools are, and whatever has been taken from them and returned, an
ending stack from them has the frames that are asked for, all of them empty, a frame is empty, and
a response is like a new one, also if it has fields for what callbacks ask for. A walk of a
compiled template does the same on all such stacks, and leaves them clear unless the response is
halted. So a render with the pools does what it does without, and leaves pools of which all this
can be said again. Requests are answered as with new responses, one after the other. -/
theorem rendering_ignores_pools (store : EndingStore κ ω) {pools : Pools κ}
    (hpools : pools.Arises) :
    (∀ depth, (pools.acquireStack depth).1.Ready depth) ∧
      pools.acquireFrame.1 = [] ∧ pools.acquireResponse.1 = {} ∧
      (∀ responses : Pool (FieldedResponse ω), responses.Arises → responses.get.1 = {}) ∧
      (∀ {δ : Type} (source : String) (declarations : List (Declaration ω δ)) (data : δ),
        (∀ c, Component.compile source declarations = .ok c → c.WalksAlike data c.entry) ∧
        ∀ w, Wrapper.compile source declarations = .ok w →
          w.preContent.WalksAlike data w.preContent.entry ∧
          ∀ place, w.ResumesAt data place → w.postContent.WalksAlike data place) ∧
      (∀ {α : Type} (x' : PoolRender κ ω α) (x : Render ω α), Render.OnPools store x' x →
        Mirrors Pooled.Beside x' x (· = ·)) ∧
      ∀ (xs' : List (PoolRender κ ω Unit)) (xs : List (Render ω Unit)),
        List.Forall₂ (Render.OnPools store) xs' xs → ∀ world,
          AnsweredAlike (serveAll xs' ⟨pools, world⟩) (answerAll xs world) := by
  refine ⟨hpools.ready_acquireStack, hpools.acquireFrame_eq, hpools.acquireResponse_eq,
    fun _ h => FieldedResponse.get_eq_fresh h, fun source declarations data => ⟨?_, ?_⟩,
    fun _ _ h => h.mirrors, ?_⟩
  · intro c h
    have hw := Component.wellFormed_of_compile h
    exact Component.walksAlike hw (Component.placed_cursorAt_entry hw {})
  · intro w h
    have hw := Wrapper.wellFormed_of_compile h
    exact ⟨Component.walksAlike hw.preContent (Component.placed_cursorAt_entry hw.preContent {}),
      fun place hplace => Component.walksAlike hw.postContent (hplace.beginsAt h).placed⟩
  · intro xs' xs h world
    exact serveAll_alike (h.imp fun _ _ hx => hx.mirrors) ⟨rfl, hpools⟩

/-- The source `<i>${}</i>`. -/
def italicSource : String := "<i>$\x7b\x7d</i>"

/-- The source `a${{deco}b${stop}c}}d`. -/
def stoppableSource : String := "a$\x7b\x7bdeco\x7db$\x7bstop\x7dc\x7d\x7dd"

/-- Its declarations: the wrapper is put into italics and has an ending, and inside of it the
response is halted if the data say so. -/
def stoppable (italic : Wrapper Unit Bool) : List (Declaration Unit Bool) :=
  [.wrapper "deco" fun data => do
    WrapperRender.wrap italic data
    WrapperRender.addEnding (Render.write "!"),
   .plain "stop" fun stop => if stop then Render.halt else pure ()]

/-- The same with the pools. -/
def stoppableOnPools (store : EndingStore Unit Unit) (italic : Wrapper (Pooled Unit Unit) Bool) :
    List (Declaration (Pooled Unit Unit) Bool) :=
  [.wrapper "deco" fun data => do
    WrapperRender.wrapOnPools store italic data
    WrapperRender.addEnding (Render.write "!").besidePools,
   .plain "stop" fun stop => (if stop then Render.halt else pure ()).besidePools]

theorem declaredOnPools_stoppable {store : EndingStore Unit Unit}
    {italic' : Wrapper (Pooled Unit Unit) Bool} {italic : Wrapper Unit Bool}
    (h' : Wrapper.compile italicSource [] = .ok italic')
    (h : Wrapper.compile italicSource [] = .ok italic) :
    DeclaredOnPools store (stoppableOnPools store italic') (stoppable italic) :=
  .called _ _ (.wrapper fun data => .bind (.wrap data h' h .nil) fun _ => .addEnding (.beside _))
    (.called _ _ (.plain fun _ => .beside _) .nil)

/-- Endings are kept as ones that do nothing. -/
def EndingStore.idle : EndingStore κ ω :=
  { keep := fun _ => (pure () : Render κ Unit), give := fun _ => (pure () : PoolRender κ ω Unit) }

/-- Pools to which a stack has been returned with an ending on it. -/
def usedPools : Pools Unit :=
  (Pools.new { maxPooled := .items 1, maxStackFrames := 3 } 1).returnStack
    { frames := [[], [Render.writeRaw "left"]] }

/-- The first request halts the response inside of the wrapper. The second one is answered as if
nothing had been before. -/
theorem rendering_ignores_pools_of_stoppable :
    ∃ italic', Wrapper.compile italicSource [] = .ok italic' ∧
      ∃ c', Component.compile stoppableSource (stoppableOnPools .idle italic') = .ok c' ∧
        ∃ responses world, serveAll [c'.renderOnPools .idle true, c'.renderOnPools .idle false]
            ⟨usedPools, ()⟩ = .ok (responses, world) ∧
          responses.map Response.output = ["a<i>b".toUTF8, "a<i>bc!</i>d".toUTF8] := by
  have hrun : ((Wrapper.compile italicSource []).toOption.any fun italic =>
      (Component.compile stoppableSource (stoppable italic)).toOption.any fun c =>
        (answerAll [c.render true, c.render false] ()).toOption.any fun p =>
          p.1.map Response.output = ["a<i>b".toUTF8, "a<i>bc!</i>d".toUTF8]) = true := by
    decide +kernel
  obtain ⟨italic, hitalic, hrun⟩ := exists_ok_of_any hrun
  obtain ⟨c, hc, hrun⟩ := exists_ok_of_any hrun
  obtain ⟨⟨responses, ⟨⟩⟩, hanswer, hrun⟩ := exists_ok_of_any hrun
  have hcompiled' : ((Wrapper.compile italicSource []).toOption.any fun italic' =>
      (Component.compile stoppableSource (stoppableOnPools .idle italic')).isOk) = true := by
    decide +kernel
  obtain ⟨italic', hitalic', hcompiled'⟩ := exists_ok_of_any hcompiled'
  obtain ⟨c', hc'⟩ := exists_eq_ok hcompiled'
  have hpage : ∀ stop, Render.OnPools .idle (c'.renderOnPools .idle stop) (c.render stop) :=
    fun stop => .insert stop hc' hc (declaredOnPools_stoppable hitalic' hitalic)
  have hused : usedPools.Arises := (Pools.arises_new _ _).returnStack _
  obtain ⟨-, -, -, -, -, -, hserved⟩ := rendering_ignores_pools .idle hused
  have halike := hserved _ _ (.cons (hpage true) (.cons (hpage false) .nil)) ()
  rw [hanswer] at halike
  refine ⟨italic', hitalic', c', hc', responses, ?_⟩
  generalize serveAll _ _ = answered' at halike
  cases halike with
  | @answer _ world' _ _ => exact ⟨world', rfl, of_decide_eq_true hrun⟩

end HtmlTemplate
