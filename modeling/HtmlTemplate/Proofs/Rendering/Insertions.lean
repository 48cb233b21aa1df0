import HtmlTemplate.Proofs.Markup.Inert
import HtmlTemplate.Proofs.Rendering.Api
import HtmlTemplate.Proofs.Rendering.Blindness

/-!
# What callbacks insert

A callback that writes escaped text inserts inert text, and so do its endings; one that adds
attributes inserts attributes made of inert text. Whatever it reads, of the response or of the
world, has no influence on that.

Results:
1. `Response.gained_write`, `Response.gained_addAttribute`: what single calls add to the output.
2. `Render.CallsOnly.inserts`: what is added by a computation that makes such calls only.
3. `WrapperRender.Escapes.inserts`, `AttributeRender.AddsAttributes.inserts`: the same of callbacks
   with a scope, which is not changed but for the endings.
4. `Declaration.Escapes.inserts`: what is inserted at the markers of a declaration.
-/

namespace HtmlTemplate

open Markup Render

variable {ω δ α β : Type}

/-! ## 1. Responses -/

namespace Response

/-- In between, bytes with the property have been added to the output, and the response has not
been halted. -/
structure Gained (p : List UInt8 → Prop) (r r' : Response) : Prop where
  running : r'.halted = false
  output : ∃ bytes : ByteArray, p bytes.data.toList ∧ r'.output = r.output ++ bytes

variable {r r' r'' : Response} {p q : List UInt8 → Prop}

theorem Gained.of_eq (hp : p []) (h : r'.halted = false) (ho : r'.output = r.output) :
    r.Gained p r' :=
  ⟨h, .empty, hp, by simp [ho]⟩

/-- What is added comes one after the other. -/
theorem Gained.append {o : List UInt8 → Prop} (h : r.Gained p r') (h' : r'.Gained q r'')
    (ho : ∀ front back, p front → q back → o (front ++ back)) : r.Gained o r'' := by
  obtain ⟨-, bytes, hbytes, heq⟩ := h
  obtain ⟨hrunning, bytes', hbytes', heq'⟩ := h'
  refine ⟨hrunning, bytes ++ bytes', ?_, ?_⟩
  · rw [ByteArray.data_append, Array.toList_append]
    exact ho _ _ hbytes hbytes'
  · rw [heq', heq, ByteArray.append_assoc]

/-- A response that is not halted takes what is written. -/
theorem gained_extend {f : ByteArray → ByteArray} (h : r.halted = false) {bytes : ByteArray}
    (hp : p bytes.data.toList) (hf : f r.output = r.output ++ bytes) : r.Gained p (r.extend f) := by
  unfold extend
  rw [if_neg (by simp [h])]
  exact ⟨h, bytes, hp, hf⟩

theorem gained_writeBytes (h : r.halted = false) (bytes : ByteArray) :
    r.Gained InertText (r.writeBytes bytes) := by
  obtain ⟨inert, hinert, heq⟩ := Entity.exists_inert_of_appendEscaped r.output bytes
  exact gained_extend (f := (Entity.appendEscaped Entity.html · bytes)) h hinert heq

theorem gained_write (h : r.halted = false) (text : String) : r.Gained InertText (r.write text) :=
  gained_writeBytes h text.toUTF8

theorem gained_writeRaw (h : r.halted = false) (html : String) :
    r.Gained (· = html.toUTF8.data.toList) (r.writeRaw html) :=
  gained_extend (f := (· ++ html.toUTF8)) h rfl rfl

/-- A key that is empty is replaced by another one. -/
theorem gained_writeKey (h : r.halted = false) (key : String) :
    r.Gained (fun bytes => ∃ inert, InertText inert ∧ bytes = ' '.toUInt8 :: inert)
      (r.writeKey key true) := by
  have hblank := gained_writeRaw h " "
  unfold writeKey
  by_cases hempty : key.isEmpty = true
  · rw [if_pos hempty]
    refine hblank.append (gained_writeRaw hblank.running "_") ?_
    rintro _ _ rfl rfl
    exact ⟨['_'.toUInt8], by unfold InertText; decide +kernel, rfl⟩
  · rw [if_neg hempty, if_pos rfl]
    refine hblank.append (gained_write hblank.running key) ?_
    rintro _ inert rfl hinert
    exact ⟨inert, hinert, rfl⟩

theorem gained_addAttribute (h : r.halted = false) (key value : String) :
    r.Gained AttributeText (r.addAttribute key value) := by
  have hkey := gained_writeKey h key
  have hopen : r.Gained (fun bytes => ∃ inert, InertText inert ∧
      bytes = ' '.toUInt8 :: (inert ++ ['='.toUInt8, '"'.toUInt8]))
        ((r.writeKey key true).writeRaw "=\"") := by
    refine hkey.append (gained_writeRaw hkey.running "=\"") ?_
    rintro _ _ ⟨inert, hinert, rfl⟩ rfl
    exact ⟨inert, hinert, rfl⟩
  have hvalue := gained_write hopen.running value
  -- the value stands between two quotes that are not escaped
  have hclose : ((r.writeKey key true).writeRaw "=\"").Gained (fun bytes =>
      ∃ inert, InertText inert ∧ bytes = inert ++ ['"'.toUInt8]) (r.addAttribute key value) := by
    refine hvalue.append (gained_writeRaw hvalue.running "\"") ?_
    rintro inert _ hinert rfl
    exact ⟨inert, hinert, rfl⟩
  refine hopen.append hclose ?_
  rintro _ _ ⟨inert, hinert, rfl⟩ ⟨inert', hinert', rfl⟩
  have hall := AttributeText.cons hinert hinert' .nil
  simpa [attributeBytes] using hall

/-- A call that writes escaped text, or none. -/
def Call.Escapes : Call → Prop
  | .write _ | .writeBytes _ | .setStatus _ => True
  | .writeRaw _ | .writeRawBytes _ | .addAttribute _ _ | .addRawAttribute _ _ | .addFlag _
  | .halt | .redirect _ _ | .giveUp => False

/-- A call that adds an attribute, key and value escaped, or none. -/
def Call.AddsAttribute : Call → Prop
  | .addAttribute _ _ | .setStatus _ => True
  | .write _ | .writeRaw _ | .writeBytes _ | .writeRawBytes _ | .addRawAttribute _ _ | .addFlag _
  | .halt | .redirect _ _ | .giveUp => False

theorem Call.Escapes.gained {call : Call} (hc : call.Escapes) (h : r.halted = false) :
    r.Gained InertText (r.apply call) := by
  cases call with
  | write text => exact gained_write h text
  | writeBytes bytes => exact gained_writeBytes h bytes
  | setStatus status => exact .of_eq .nil h rfl
  | _ => cases hc

theorem Call.AddsAttribute.gained {call : Call} (hc : call.AddsAttribute)
    (h : r.halted = false) : r.Gained AttributeText (r.apply call) := by
  cases call with
  | addAttribute key value => exact gained_addAttribute h key value
  | setStatus status => exact .of_eq .nil h rfl
  | _ => cases hc

end Response

/-! ## 2. Computations -/

/-- A computation that reads what it likes, changes the world, and makes allowed calls on the
response. It may give up. -/
inductive Render.CallsOnly (allowed : Response.Call → Prop) : {α : Type} → Render ω α → Prop
  | inspect {α : Type} (f : Response → ω → α × ω) : CallsOnly allowed (Render.inspect f)
  | respond {call : Response.Call} : allowed call → CallsOnly allowed (Render.respond call)
  | overflow {α : Type} : CallsOnly allowed (throw .overflow : Render ω α)
  | bind {α β : Type} {x : Render ω α} {f : α → Render ω β} : CallsOnly allowed x →
      (∀ a, CallsOnly allowed (f a)) → CallsOnly allowed (x >>= f)

/-! The functions with which a callback writes escaped text. -/

theorem Render.CallsOnly.write (text : String) :
    CallsOnly Response.Call.Escapes (Render.write text : Render ω Unit) :=
  show CallsOnly Response.Call.Escapes (Render.respond (.write text)) from .respond trivial

theorem Render.CallsOnly.writeBytes (bytes : ByteArray) :
    CallsOnly Response.Call.Escapes (Render.writeBytes bytes : Render ω Unit) :=
  show CallsOnly Response.Call.Escapes (Render.respond (.writeBytes bytes)) from .respond trivial

/-- A callback at a wrapper start that writes escaped text only, and registers endings that do. -/
inductive WrapperRender.Escapes : {α : Type} → WrapperRender ω α → Prop
  | lift {α : Type} {x : Render ω α} : Render.CallsOnly Response.Call.Escapes x →
      WrapperRender.Escapes (StateT.lift x)
  | bind {α β : Type} {x : WrapperRender ω α} {f : α → WrapperRender ω β} :
      WrapperRender.Escapes x → (∀ a, WrapperRender.Escapes (f a)) →
      WrapperRender.Escapes (x >>= f)
  | addEnding {ending : Ending ω} : Render.CallsOnly Response.Call.Escapes ending →
      WrapperRender.Escapes (WrapperRender.addEnding ending)

/-- A callback in a start tag that adds escaped attributes only. -/
inductive AttributeRender.AddsAttributes : {α : Type} → AttributeRender ω α → Prop
  | lift {α : Type} {x : Render ω α} : Render.CallsOnly Response.Call.AddsAttribute x →
      AttributeRender.AddsAttributes (StateT.lift x)
  | bind {α β : Type} {x : AttributeRender ω α} {f : α → AttributeRender ω β} :
      AttributeRender.AddsAttributes x → (∀ a, AttributeRender.AddsAttributes (f a)) →
      AttributeRender.AddsAttributes (x >>= f)

theorem AttributeRender.AddsAttributes.addAttribute (key value : String) :
    AddsAttributes (AttributeRender.addAttribute key value : AttributeRender ω Unit) :=
  .lift (show Render.CallsOnly Response.Call.AddsAttribute
    (Render.respond (.addAttribute key value)) from .respond trivial)

/-- A declaration whose callback, if there is one, inserts escaped text or attributes. It neither
halts the response nor drops anything. -/
inductive Declaration.Escapes (d : Declaration ω δ) : Prop
  | fixed : d.callback = none → d.Escapes
  | plain {run : δ → Render ω Unit} : d.callback = some (.plain run) →
      (∀ data, Render.CallsOnly Response.Call.Escapes (run data)) → d.Escapes
  | wrapper {run : δ → WrapperRender ω Unit} : d.callback = some (.wrapper run) →
      (∀ data, WrapperRender.Escapes (run data)) → d.Escapes
  | attributes {run : δ → AttributeRender ω Unit} : d.callback = some (.attributes run) →
      (∀ data, AttributeRender.AddsAttributes (run data)) → d.Escapes

/-! ## 3. What they insert -/

/-- If the computation returns, then it has added bytes with the property, and has not halted the
response. -/
def Render.Inserts (p : List UInt8 → Prop) (x : Render ω α) : Prop :=
  ∀ s a s', s.response.halted = false → x s = .ok (a, s') → s.response.Gained p s'.response

theorem Render.CallsOnly.inserts {allowed : Response.Call → Prop} {p : List UInt8 → Prop}
    {x : Render ω α} (hx : CallsOnly allowed x) (hnil : p [])
    (happend : ∀ front back, p front → p back → p (front ++ back))
    (hcall : ∀ (call : Response.Call) (r : Response), allowed call → r.halted = false →
      r.Gained p (r.apply call)) : Inserts p x := by
  induction hx with
  | inspect f =>
    intro s a s' hs h
    cases h
    exact .of_eq hnil hs rfl
  | respond hc =>
    intro s a s' hs h
    cases h
    exact hcall _ _ hc hs
  | overflow =>
    intro s a s' hs h
    cases h
  | bind _ _ ihx ihf =>
    intro s b s' hs h
    obtain ⟨a, s₁, hrun, hrest⟩ := ok_of_bind h
    have hgained := ihx s a s₁ hs hrun
    exact hgained.append (ihf a s₁ b s' hgained.running hrest) happend

theorem Render.inserts_of_escapes {x : Render ω α} (hx : CallsOnly Response.Call.Escapes x) :
    Inserts InertText x :=
  hx.inserts .nil (fun _ _ => .append) fun _ _ hc => hc.gained

theorem Render.inserts_of_addsAttribute {x : Render ω α}
    (hx : CallsOnly Response.Call.AddsAttribute x) : Inserts AttributeText x :=
  hx.inserts .nil (fun _ _ => .append) fun _ _ hc => hc.gained

theorem Render.inserts_runEndings {endings : List (Ending ω)}
    (h : ∀ ending ∈ endings, Inserts InertText ending) :
    Inserts InertText (runEndings endings) := by
  induction endings with
  | nil =>
    intro s a s' hs hrun
    cases hrun
    exact .of_eq .nil hs rfl
  | cons ending rest ih =>
    obtain ⟨hending, hrest⟩ := List.forall_mem_cons.mp h
    intro s a s' hs hrun
    rw [runEndings_cons, unlessHalted_of_running _ hs] at hrun
    obtain ⟨b, s₁, hfirst, hlast⟩ := ok_of_bind hrun
    have hgained := hending s b s₁ hs hfirst
    exact hgained.append (ih hrest s₁ a s' hgained.running hlast) fun _ _ => .append

/-- The callback inserts inert text and does not drop the content, and its endings insert inert
text. -/
def WrapperRender.Inserts (x : WrapperRender ω α) : Prop :=
  ∀ scope s a scope' s', s.response.halted = false →
    (∀ ending ∈ scope.endings, Render.Inserts InertText ending) →
    x.run scope s = .ok ((a, scope'), s') →
      s.response.Gained InertText s'.response ∧ scope'.skipContent = scope.skipContent ∧
        ∀ ending ∈ scope'.endings, Render.Inserts InertText ending

/-- The callback inserts attributes, and asks to drop nothing. -/
def AttributeRender.Inserts (x : AttributeRender ω α) : Prop :=
  ∀ scope s a scope' s', s.response.halted = false → x.run scope s = .ok ((a, scope'), s') →
    s.response.Gained AttributeText s'.response ∧ scope' = scope

theorem WrapperRender.Escapes.inserts {x : WrapperRender ω α} (hx : x.Escapes) : x.Inserts := by
  induction hx with
  | lift hx =>
    intro scope s a scope' s' hs hscope h
    obtain ⟨rfl, hrun⟩ := ok_of_lift h
    exact ⟨Render.inserts_of_escapes hx s a s' hs hrun, rfl, hscope⟩
  | bind _ _ ihx ihf =>
    intro scope s b scope' s' hs hscope h
    obtain ⟨a, scope₁, s₁, hrun, hrest⟩ := ok_of_bind h
    obtain ⟨hgained, hskip, hscope₁⟩ := ihx scope s a scope₁ s₁ hs hscope hrun
    obtain ⟨hgained', hskip', hscope'⟩ :=
      ihf a scope₁ s₁ b scope' s' hgained.running hscope₁ hrest
    exact ⟨hgained.append hgained' fun _ _ => .append, hskip'.trans hskip, hscope'⟩
  | addEnding hending =>
    intro scope s a scope' s' hs hscope h
    cases h
    exact ⟨.of_eq .nil hs rfl, rfl,
      List.forall_mem_cons.mpr ⟨Render.inserts_of_escapes hending, hscope⟩⟩

theorem AttributeRender.AddsAttributes.inserts {x : AttributeRender ω α} (hx : x.AddsAttributes) :
    x.Inserts := by
  induction hx with
  | lift hx =>
    intro scope s a scope' s' hs h
    obtain ⟨rfl, hrun⟩ := ok_of_scoped_lift h
    exact ⟨Render.inserts_of_addsAttribute hx s a s' hs hrun, rfl⟩
  | bind _ _ ihx ihf =>
    intro scope s b scope' s' hs h
    obtain ⟨a, scope₁, s₁, hrun, hrest⟩ := ok_of_scoped_bind h
    obtain ⟨hgained, rfl⟩ := ihx scope s a scope₁ s₁ hs hrun
    obtain ⟨hgained', rfl⟩ := ihf a scope₁ s₁ b scope' s' hgained.running hrest
    exact ⟨hgained.append hgained' fun _ _ => .append, rfl⟩

/-! ## 4. Declarations -/

theorem Render.CallsOnly.usesApi {allowed : Response.Call → Prop} {x : Render ω α}
    (hx : CallsOnly allowed x) : x.UsesApi := by
  induction hx with
  | inspect f => exact .call fun s => ((f s.response s.world).1, { s with world := _ })
  | respond hc => exact .call _
  | overflow => exact .overflow
  | bind _ _ ihx ihf => exact .bind ihx ihf

theorem WrapperRender.Escapes.usesApi {x : WrapperRender ω α} (hx : x.Escapes) : x.UsesApi := by
  induction hx with
  | lift hx => exact .lift hx.usesApi
  | bind _ _ ihx ihf => exact .bind ihx ihf
  | addEnding hending => exact .addEnding hending.usesApi

theorem AttributeRender.AddsAttributes.usesApi {x : AttributeRender ω α}
    (hx : x.AddsAttributes) : x.UsesApi := by
  induction hx with
  | lift hx => exact .lift hx.usesApi
  | bind _ _ ihx ihf => exact .bind ihx ihf

/-- The callback inserts what is passed over at its marker. -/
def Callback.Inserts (data : δ) : Callback ω δ → Prop
  | .plain run => Render.Inserts InertText (run data)
  | .wrapper run => WrapperRender.Inserts (run data)
  | .attributes run => AttributeRender.Inserts (run data)

namespace Declaration.Escapes

variable {d : Declaration ω δ}

theorem inserts (h : d.Escapes) (callback : Callback ω δ) (hc : d.callback = some callback)
    (data : δ) : callback.Inserts data := by
  cases h with
  | fixed hnone => cases hnone.symm.trans hc
  | plain hplain hrun =>
    cases hplain.symm.trans hc
    exact Render.inserts_of_escapes (hrun data)
  | wrapper hwrapper hrun =>
    cases hwrapper.symm.trans hc
    exact (hrun data).inserts
  | attributes hattributes hrun =>
    cases hattributes.symm.trans hc
    exact (hrun data).inserts

/-- Such callbacks are made of the functions for callbacks. -/
theorem usesApi (h : d.Escapes) : d.UsesApi := by
  cases h with
  | fixed hnone => exact .fixed hnone
  | plain hplain hrun => exact .plain hplain fun data => (hrun data).usesApi
  | wrapper hwrapper hrun => exact .wrapper hwrapper fun data => (hrun data).usesApi
  | attributes hattributes hrun => exact .attributes hattributes fun data => (hrun data).usesApi

end Declaration.Escapes

end HtmlTemplate
