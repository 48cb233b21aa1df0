import HtmlTemplate.Proofs.Rendering.Journal
import HtmlTemplate.Proofs.Rendering.Steps
import HtmlTemplate.Proofs.Text.Boundaries

/-!
# Adding text to the output

A computation adds text if it leaves what has been written before and puts text behind it,
provided that the output was text. It may take back some of what it has added. Whatever it notes
in the journal on the way, it notes with an output that is text.

Results:
1. `Session.AddedText`: what has happened to the output in between, with `trans` and `cut`.
2. `Render.addsText_bind`, `addsText_runEndings` and others: what is put together of
   computations that add text.
3. `Callback.AddsText`: callbacks, which may register endings that add text.
-/

namespace HtmlTemplate

open Render

variable {σ δ α β : Type}

/-! ## 1. Sessions -/

/-- Text has been added to the output, and what has been noted in between shows text. -/
structure Session.AddedText (s s' : Session (Journaled σ)) : Prop where
  output : ∃ text : String, s'.response.output = s.response.output ++ text.toUTF8
  entries : ∃ new, s'.entries = s.entries ++ new ∧ ∀ n ∈ new, n.response.output.IsValidUTF8

namespace Session.AddedText

variable {s s₀ s₁ s' : Session (Journaled σ)}

theorem refl (s : Session (Journaled σ)) : s.AddedText s :=
  ⟨⟨"", by simp⟩, [], by simp⟩

theorem trans (h : s.AddedText s₁) (h' : s₁.AddedText s') : s.AddedText s' := by
  obtain ⟨⟨text, htext⟩, new, hnew, hvalid⟩ := h
  obtain ⟨⟨text', htext'⟩, new', hnew', hvalid'⟩ := h'
  refine ⟨⟨text ++ text', ?_⟩, new ++ new', ?_, List.forall_mem_append.mpr ⟨hvalid, hvalid'⟩⟩
  · rw [htext', htext, ByteArray.append_assoc]
    simp
  · rw [hnew', hnew, List.append_assoc]

/-- Text with text behind it is text. -/
theorem isValidUTF8 (h : s.AddedText s') (hs : s.response.output.IsValidUTF8) :
    s'.response.output.IsValidUTF8 := by
  obtain ⟨⟨text, htext⟩, -⟩ := h
  exact htext ▸ hs.append text.isValidUTF8

/-- The output that was there before ends on a boundary. -/
theorem onBoundary (h : s.AddedText s') (hs : s.response.output.IsValidUTF8) :
    OnBoundary s'.response.output s.response.size := by
  obtain ⟨⟨text, htext⟩, -⟩ := h
  exact htext ▸ .of_append hs _

theorem onBoundary_of_before {offset : Nat} (h : s.AddedText s')
    (hoffset : OnBoundary s.response.output offset) : OnBoundary s'.response.output offset := by
  obtain ⟨⟨text, htext⟩, -⟩ := h
  exact htext ▸ hoffset.append _

/-- A call that writes strings has been made. -/
theorem of_apply {call : Response.Call} (hc : call.Textual) (s : Session (Journaled σ)) :
    s.AddedText { s with response := s.response.apply call } :=
  ⟨Response.exists_text_of_apply hc s.response, [], by simp [Session.entries]⟩

theorem of_wrote {t : Template (Journaled σ) δ} {start stop : Nat}
    (h : (t.html.extract start stop).IsValidUTF8) (s : Session (Journaled σ)) :
    s.AddedText (t.wrote start stop s) :=
  have hraw : (Response.Call.writeRaw (.ofByteArray _ h)).Textual := trivial
  of_apply hraw s

theorem of_noting (hs : s.response.output.IsValidUTF8) (event : Event) :
    s.AddedText (s.noting event) :=
  ⟨⟨"", by simp [Session.noting]⟩, [s.entry event], rfl, by simpa [Session.entry] using hs⟩

/-- Output is taken back on a boundary, behind what was there before. -/
theorem cut {size : Nat} (h : s₀.AddedText s) (hs₀ : s₀.response.output.IsValidUTF8)
    (hsize : OnBoundary s.response.output size) (hle : s₀.response.size ≤ size) :
    s₀.AddedText { s with response := s.response.truncate size } := by
  have hbetween := (h.onBoundary hs₀).extract hsize (h.isValidUTF8 hs₀) hle
  obtain ⟨⟨text, htext⟩, hentries⟩ := h
  refine ⟨⟨.ofByteArray _ hbetween, ?_⟩, hentries⟩
  show s.response.output.extract 0 size =
    s₀.response.output ++ s.response.output.extract s₀.response.output.size size
  rw [ByteArray.extract_eq_extract_append_extract s₀.response.output.size (Nat.zero_le _) hle]
  congr 1
  rw [htext, ByteArray.extract_append_eq_left rfl]

end Session.AddedText

/-! ## 2. Computations -/

/-- The computation adds text to an output that is text. -/
def Render.AddsText (x : Render (Journaled σ) α) : Prop :=
  ∀ s a s', s.response.output.IsValidUTF8 → x s = .ok (a, s') → s.AddedText s'

namespace Render

theorem addsText_pure (a : α) : AddsText (pure a : Render (Journaled σ) α) := by
  intro s b s' hs h
  cases h
  exact .refl s

theorem addsText_throw (f : Fault) : AddsText (throw f : Render (Journaled σ) α) :=
  fun _ _ _ _ h => by cases h

theorem addsText_bind {x : Render (Journaled σ) α} {f : α → Render (Journaled σ) β}
    (hx : AddsText x) (hf : ∀ a, AddsText (f a)) : AddsText (x >>= f) := by
  intro s b s' hs h
  obtain ⟨a, s₁, hrun, hrest⟩ := ok_of_bind h
  have hadded := hx s a s₁ hs hrun
  exact hadded.trans (hf a s₁ b s' (hadded.isValidUTF8 hs) hrest)

theorem addsText_consult (f : Response → σ → α × σ) : AddsText (Render.consult f) := by
  intro s a s' hs h
  cases h
  exact ⟨⟨"", by simp⟩, [], by simp [Session.entries]⟩

theorem addsText_respond {call : Response.Call} (hc : call.Textual) :
    AddsText (Render.respond call : Render (Journaled σ) Unit) := by
  intro s a s' hs h
  cases h
  exact .of_apply hc s

theorem addsText_note (event : Event) :
    AddsText (Render.note event : Render (Journaled σ) Unit) := by
  intro s a s' hs h
  cases h
  exact .of_noting hs event

theorem addsText_runEndings {endings : List (Ending (Journaled σ))}
    (h : ∀ ending ∈ endings, AddsText ending) : AddsText (runEndings endings) := by
  induction endings with
  | nil => exact addsText_pure ()
  | cons ending rest ih =>
    obtain ⟨hending, hrest⟩ := List.forall_mem_cons.mp h
    intro s a s' hs hrun
    rw [runEndings_cons] at hrun
    cases hhalted : s.response.halted with
    | true =>
      rw [unlessHalted_of_halted _ hhalted] at hrun
      cases hrun
      exact .refl s
    | false =>
      rw [unlessHalted_of_running _ hhalted] at hrun
      exact addsText_bind hending (fun _ => ih hrest) s a s' hs hrun

end Render

/-- The callback adds text, and so do the endings that it registers. -/
def WrapperRender.AddsText (x : WrapperRender (Journaled σ) α) : Prop :=
  ∀ scope s a scope' s', (∀ ending ∈ scope.endings, Render.AddsText ending) →
    s.response.output.IsValidUTF8 → x.run scope s = .ok ((a, scope'), s') →
    s.AddedText s' ∧ ∀ ending ∈ scope'.endings, Render.AddsText ending

def AttributeRender.AddsText (x : AttributeRender (Journaled σ) α) : Prop :=
  ∀ scope, Render.AddsText (x.run scope)

namespace WrapperRender

theorem addsText_bind {x : WrapperRender (Journaled σ) α}
    {f : α → WrapperRender (Journaled σ) β} (hx : AddsText x) (hf : ∀ a, AddsText (f a)) :
    AddsText (x >>= f) := by
  intro scope s b scope' s' hscope hs h
  obtain ⟨a, scope₁, s₁, hrun, hrest⟩ := ok_of_bind h
  obtain ⟨hadded, hscope₁⟩ := hx scope s a scope₁ s₁ hscope hs hrun
  obtain ⟨hadded', hscope'⟩ := hf a scope₁ s₁ b scope' s' hscope₁ (hadded.isValidUTF8 hs) hrest
  exact ⟨hadded.trans hadded', hscope'⟩

theorem addsText_lift {x : Render (Journaled σ) α} (hx : Render.AddsText x) :
    AddsText (StateT.lift x) := by
  intro scope s a scope' s' hscope hs h
  obtain ⟨rfl, hrun⟩ := ok_of_lift h
  exact ⟨hx s a s' hs hrun, hscope⟩

theorem addsText_addEnding {ending : Ending (Journaled σ)} (h : Render.AddsText ending) :
    AddsText (addEnding ending) := by
  intro scope s a scope' s' hscope hs hrun
  cases hrun
  exact ⟨.refl s, List.forall_mem_cons.mpr ⟨h, hscope⟩⟩

theorem addsText_skipContent : AddsText (skipContent : WrapperRender (Journaled σ) Unit) := by
  intro scope s a scope' s' hscope hs hrun
  cases hrun
  exact ⟨.refl s, hscope⟩

end WrapperRender

namespace AttributeRender

theorem addsText_bind {x : AttributeRender (Journaled σ) α}
    {f : α → AttributeRender (Journaled σ) β} (hx : AddsText x) (hf : ∀ a, AddsText (f a)) :
    AddsText (x >>= f) := by
  intro scope
  rw [StateT.run_bind]
  exact Render.addsText_bind (hx scope) fun p => hf p.1 p.2

theorem addsText_lift {x : Render (Journaled σ) α} (hx : Render.AddsText x) :
    AddsText (StateT.lift x) := by
  intro scope
  rw [StateT.run_lift]
  exact Render.addsText_bind hx fun _ => Render.addsText_pure _

theorem addsText_skipContent : AddsText (skipContent : AttributeRender (Journaled σ) Unit) :=
  fun _ => Render.addsText_pure _

theorem addsText_skipElement : AddsText (skipElement : AttributeRender (Journaled σ) Unit) :=
  fun _ => Render.addsText_pure _

end AttributeRender

/-- The callback adds text, and registers only endings that do. -/
def Callback.AddsText (data : δ) : Callback (Journaled σ) δ → Prop
  | .plain run => Render.AddsText (run data)
  | .wrapper run => WrapperRender.AddsText (run data)
  | .attributes run => AttributeRender.AddsText (run data)

/-- The callbacks of the template add text. -/
abbrev Template.AddsText (t : Template (Journaled σ) δ) (data : δ) : Prop :=
  t.EachCallback fun callback => callback.AddsText data

end HtmlTemplate
