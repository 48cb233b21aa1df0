import HtmlTemplate.Proofs.Rendering.Safety

/-!
# Callbacks that use the library

A callback is any computation. `UsesApi` says that it is made of the functions that
the library has for callbacks: it changes the response and the world, registers
endings, asks to drop something, and renders templates, whose callbacks again are
made of these functions. Such a callback may raise `Fault.overflow`, but no fault
of the library.

Results:
1. `Render.UsesApi`, `WrapperRender.UsesApi`, `AttributeRender.UsesApi`,
   `Declaration.UsesApi`: computations made of these functions.
2. `Render.UsesApi.safe`: they do not fail in the library.
3. `rendering_safe_of_compile`: no part of a compiled template fails, wherever it is
   resumed.
-/

namespace HtmlTemplate

open Render

variable {ω : Type}

/-! ## 1. The functions for callbacks -/

mutual

/-- A computation made of the functions for callbacks. -/
inductive Render.UsesApi : {α : Type} → Render ω α → Prop
  /-- The response and the world are read and changed, and something is returned. -/
  | call {α : Type} (f : Session ω → α × Session ω) : Render.UsesApi fun s => .ok (f s)
  /-- A callback gives up by itself. -/
  | overflow {α : Type} : Render.UsesApi (throw .overflow : Render ω α)
  | bind {α β : Type} {x : Render ω α} {f : α → Render ω β} :
      Render.UsesApi x → (∀ a, Render.UsesApi (f a)) → Render.UsesApi (x >>= f)
  /-- A component is inserted. -/
  | insert {δ : Type} {source : String} {declarations : List (Declaration ω δ)}
      {c : Component ω δ} (data : δ) : Component.compile source declarations = .ok c →
      (∀ d ∈ declarations, Declaration.UsesApi d) → Render.UsesApi (c.render data)
  /-- The part of a wrapper before its content marker is inserted. -/
  | insertBefore {δ : Type} {source : String} {declarations : List (Declaration ω δ)}
      {w : Wrapper ω δ} (data : δ) : Wrapper.compile source declarations = .ok w →
      (∀ d ∈ declarations, Declaration.UsesApi d) → Render.UsesApi (w.preContent.render data)
  /-- The part of a wrapper behind its content marker is inserted. -/
  | insertBehind {δ : Type} {source : String} {declarations : List (Declaration ω δ)}
      {w : Wrapper ω δ} (data : δ) : Wrapper.compile source declarations = .ok w →
      (∀ d ∈ declarations, Declaration.UsesApi d) → Render.UsesApi (w.postContent.render data)
  /-- A wrapper is inserted around a payload. -/
  | insertWrapped {δ : Type} {source : String} {declarations : List (Declaration ω δ)}
      {w : Wrapper ω δ} (data : δ) {payload : Render ω Unit} :
      Wrapper.compile source declarations = .ok w → (∀ d ∈ declarations, Declaration.UsesApi d) →
      Render.UsesApi payload → Render.UsesApi (w.render data payload)

/-- A computation at a wrapper start made of the functions for callbacks. -/
inductive WrapperRender.UsesApi : {α : Type} → WrapperRender ω α → Prop
  | lift {α : Type} {x : Render ω α} : Render.UsesApi x → WrapperRender.UsesApi (StateT.lift x)
  | bind {α β : Type} {x : WrapperRender ω α} {f : α → WrapperRender ω β} :
      WrapperRender.UsesApi x → (∀ a, WrapperRender.UsesApi (f a)) →
      WrapperRender.UsesApi (x >>= f)
  | addEnding {ending : Ending ω} : Render.UsesApi ending →
      WrapperRender.UsesApi (WrapperRender.addEnding ending)
  | skipContent : WrapperRender.UsesApi WrapperRender.skipContent
  | wrap {δ : Type} {source : String} {declarations : List (Declaration ω δ)} {w : Wrapper ω δ}
      (data : δ) : Wrapper.compile source declarations = .ok w →
      (∀ d ∈ declarations, Declaration.UsesApi d) →
      WrapperRender.UsesApi (WrapperRender.wrap w data)

/-- A computation in a start tag made of the functions for callbacks. -/
inductive AttributeRender.UsesApi : {α : Type} → AttributeRender ω α → Prop
  | lift {α : Type} {x : Render ω α} : Render.UsesApi x → AttributeRender.UsesApi (StateT.lift x)
  | bind {α β : Type} {x : AttributeRender ω α} {f : α → AttributeRender ω β} :
      AttributeRender.UsesApi x → (∀ a, AttributeRender.UsesApi (f a)) →
      AttributeRender.UsesApi (x >>= f)
  | skipContent : AttributeRender.UsesApi AttributeRender.skipContent
  | skipElement : AttributeRender.UsesApi AttributeRender.skipElement

/-- A declaration whose callback, if there is one, is made of the functions for
callbacks. -/
inductive Declaration.UsesApi : {δ : Type} → Declaration ω δ → Prop
  | fixed {δ : Type} {d : Declaration ω δ} : d.callback = none → Declaration.UsesApi d
  | plain {δ : Type} {d : Declaration ω δ} {run : δ → Render ω Unit} :
      d.callback = some (.plain run) → (∀ data, Render.UsesApi (run data)) → Declaration.UsesApi d
  | wrapper {δ : Type} {d : Declaration ω δ} {run : δ → WrapperRender ω Unit} :
      d.callback = some (.wrapper run) → (∀ data, WrapperRender.UsesApi (run data)) →
      Declaration.UsesApi d
  | attributes {δ : Type} {d : Declaration ω δ} {run : δ → AttributeRender ω Unit} :
      d.callback = some (.attributes run) → (∀ data, AttributeRender.UsesApi (run data)) →
      Declaration.UsesApi d

end

/-! ## 2. Such callbacks do not fail -/

/-- The callback of the declaration does not fail. -/
def Declaration.Safe {δ : Type} (d : Declaration ω δ) : Prop :=
  match d.callback with
  | none => True
  | some (.plain run) => ∀ data, Render.Safe (run data)
  | some (.wrapper run) => ∀ data, WrapperRender.Safe (run data)
  | some (.attributes run) => ∀ data, AttributeRender.Safe (run data)

/-- The callbacks of a template do not fail if those of its declarations do not. -/
theorem Template.safe_of_compile? {δ : Type} {source : String}
    {declarations : List (Declaration ω δ)} {a : Assembly ω δ} {t : Template ω δ}
    (h : compile? source declarations = .ok (a, t)) (hd : ∀ d ∈ declarations, d.Safe) (data : δ) :
    t.Safe data := by
  intro i m hm
  have hdeclared := Assembly.declaredIn_of_compile? h hm
  cases ha : m.action with
  | plain run | attributes run index | wrapperStart run closing? =>
    rw [ha] at hdeclared
    obtain ⟨d, hmem, hc⟩ := hdeclared
    have hsafe := hd d hmem
    rw [Declaration.Safe, hc] at hsafe
    exact hsafe data
  | wrapperEnd opening => trivial

theorem Component.safe_of_compile {δ : Type} {source : String}
    {declarations : List (Declaration ω δ)} {c : Component ω δ}
    (h : Component.compile source declarations = .ok c) (hd : ∀ d ∈ declarations, d.Safe)
    (data : δ) : c.template.Safe data := by
  obtain ⟨a, t, ht, -, rfl⟩ := Component.compile_eq_ok h
  exact Template.safe_of_compile? ht hd data

theorem Wrapper.safe_of_compile {δ : Type} {source : String}
    {declarations : List (Declaration ω δ)} {w : Wrapper ω δ}
    (h : Wrapper.compile source declarations = .ok w) (hd : ∀ d ∈ declarations, d.Safe)
    (data : δ) : w.template.Safe data := by
  obtain ⟨a, t, content, ht, -, rfl⟩ := Wrapper.compile_eq_ok h
  exact Template.safe_of_compile? ht hd data

theorem WrapperRender.safe_bind {α β : Type} {x : WrapperRender ω α} {f : α → WrapperRender ω β}
    (hx : WrapperRender.Safe x) (hf : ∀ a, WrapperRender.Safe (f a)) :
    WrapperRender.Safe (x >>= f) := by
  intro scope hscope
  rw [StateT.run_bind]
  exact meets_bind (hx scope hscope) fun p hp => hf p.1 p.2 hp

theorem WrapperRender.safe_lift {α : Type} {x : Render ω α} (hx : Render.Safe x) :
    WrapperRender.Safe (StateT.lift x) := by
  intro scope hscope
  rw [StateT.run_lift]
  exact meets_bind_safe hx fun _ => meets_pure hscope

theorem WrapperRender.safe_addEnding {ending : Ending ω} (h : Render.Safe ending) :
    WrapperRender.Safe (WrapperRender.addEnding ending) := by
  intro scope hscope
  refine meets_pure ?_
  intro other hother
  rcases List.mem_cons.mp hother with rfl | hother
  · exact h
  · exact hscope other hother

theorem AttributeRender.safe_bind {α β : Type} {x : AttributeRender ω α}
    {f : α → AttributeRender ω β} (hx : AttributeRender.Safe x)
    (hf : ∀ a, AttributeRender.Safe (f a)) : AttributeRender.Safe (x >>= f) := by
  intro scope
  rw [StateT.run_bind]
  exact meets_bind_safe (hx scope) fun p => hf p.1 p.2

theorem AttributeRender.safe_lift {α : Type} {x : Render ω α} (hx : Render.Safe x) :
    AttributeRender.Safe (StateT.lift x) := by
  intro scope
  rw [StateT.run_lift]
  exact meets_bind_safe hx fun _ => meets_pure trivial

mutual

theorem Render.UsesApi.safe {α : Type} {x : Render ω α} : Render.UsesApi x → Render.Safe x
  | .call f => meets_of_ok fun s => ⟨(f s).1, (f s).2, rfl, trivial⟩
  | .overflow => ⟨fun _ _ h => by cases h; rfl, fun _ _ _ h => by cases h⟩
  | .bind hx hf => meets_bind_safe hx.safe fun a => (hf a).safe
  | .insert data h hd =>
    Component.safe_render (Component.wellFormed_of_compile h)
      (Component.safe_of_compile h (fun d hmem => (hd d hmem).safe) data)
  | .insertBefore data h hd =>
    Component.safe_render (Wrapper.wellFormed_of_compile h).preContent
      (Wrapper.safe_of_compile h (fun d hmem => (hd d hmem).safe) data)
  | .insertBehind data h hd =>
    Component.safe_render (Wrapper.wellFormed_of_compile h).postContent
      (Wrapper.safe_of_compile h (fun d hmem => (hd d hmem).safe) data)
  | .insertWrapped data h hd hpayload =>
    Wrapper.safe_render (Wrapper.wellFormed_of_compile h)
      (Wrapper.safe_of_compile h (fun d hmem => (hd d hmem).safe) data) hpayload.safe

theorem WrapperRender.UsesApi.safe {α : Type} {x : WrapperRender ω α} :
    WrapperRender.UsesApi x → WrapperRender.Safe x
  | .lift hx => WrapperRender.safe_lift hx.safe
  | .bind hx hf => WrapperRender.safe_bind hx.safe fun a => (hf a).safe
  | .addEnding h => WrapperRender.safe_addEnding h.safe
  | .skipContent => fun _ hscope => meets_pure hscope
  | .wrap data h hd =>
    WrapperRender.safe_wrap (Wrapper.wellFormed_of_compile h)
      (Wrapper.safe_of_compile h (fun d hmem => (hd d hmem).safe) data)

theorem AttributeRender.UsesApi.safe {α : Type} {x : AttributeRender ω α} :
    AttributeRender.UsesApi x → AttributeRender.Safe x
  | .lift hx => AttributeRender.safe_lift hx.safe
  | .bind hx hf => AttributeRender.safe_bind hx.safe fun a => (hf a).safe
  | .skipContent => fun _ => meets_pure trivial
  | .skipElement => fun _ => meets_pure trivial

theorem Declaration.UsesApi.safe {δ : Type} {d : Declaration ω δ} :
    Declaration.UsesApi d → d.Safe
  | .fixed hc => by rw [Declaration.Safe, hc]; trivial
  | .plain hc h => by rw [Declaration.Safe, hc]; exact fun data => (h data).safe
  | .wrapper hc h => by rw [Declaration.Safe, hc]; exact fun data => (h data).safe
  | .attributes hc h => by rw [Declaration.Safe, hc]; exact fun data => (h data).safe

end

/-! ## 3. Compiled templates -/

/-- No part of a compiled template ends in a fault of the library, from whatever session
it is rendered: neither a component, nor a wrapper or one of its parts, nor the part
behind the content marker where it is resumed. -/
theorem rendering_safe_of_compile {δ : Type} {declarations : List (Declaration ω δ)}
    (hd : ∀ d ∈ declarations, d.UsesApi) (source : String) (data : δ) :
    (∀ c, Component.compile source declarations = .ok c → Render.Safe (c.render data)) ∧
      ∀ w, Wrapper.compile source declarations = .ok w →
        Render.Safe (w.preContent.render data) ∧ Render.Safe (w.postContent.render data) ∧
        (∀ s resume carried s',
          w.preContent.run data w.preContent.entry s = .ok (.swallowed resume carried, s') →
            Render.Safe (w.postContent.run data resume)) ∧
        ∀ payload, payload.UsesApi → Render.Safe (w.render data payload) := by
  refine ⟨fun c h => (Render.UsesApi.insert data h hd).safe, fun w h => ⟨?_, ?_, ?_, ?_⟩⟩
  · exact (Render.UsesApi.insertBefore data h hd).safe
  · exact (Render.UsesApi.insertBehind data h hd).safe
  · intro s resume carried s' hrun
    have hw := Wrapper.wellFormed_of_compile h
    have hsafe := Wrapper.safe_of_compile h (fun d hmem => (hd d hmem).safe) data
    have hsound := (Component.meets_run_entry hw.preContent hsafe).result s _ s' hrun
    exact Wrapper.safe_run_postContent hw hsafe hsound.2.2
  · exact fun payload hpayload => (Render.UsesApi.insertWrapped data h hd hpayload).safe

/-- The source `${{frame}<li ${item}>${}</li>}}`. -/
def droppedItemSource : String := "$\x7b\x7bframe\x7d<li $\x7bitem\x7d>$\x7b\x7d</li>\x7d\x7d"

/-- Its declarations: a frame around an item that is dropped with its content. -/
def droppedItem : List (Declaration Unit Unit) :=
  [.wrapper "frame" fun _ => WrapperRender.addEnding (Render.writeRaw "<hr>"),
   .attributes "item" fun _ => AttributeRender.skipElement]

theorem rendering_safe_of_droppedItem :
    ∃ w, Wrapper.compile droppedItemSource droppedItem = .ok w ∧
      Render.Safe (w.render () (Render.write "text")) := by
  have hd : ∀ d ∈ droppedItem, d.UsesApi := by
    intro d hmem
    rcases List.mem_cons.mp hmem with rfl | hmem
    · exact .wrapper rfl fun _ => .addEnding (.call _)
    · cases List.mem_singleton.mp hmem
      exact .attributes rfl fun _ => .skipElement
  obtain ⟨w, hw⟩ := exists_eq_ok
    (x := Wrapper.compile droppedItemSource droppedItem) (by decide +kernel)
  exact ⟨w, hw, ((rendering_safe_of_compile hd _ ()).2 w hw).2.2.2 _ (.call _)⟩

end HtmlTemplate
