import HtmlTemplate.Proofs.Pool.Histories
import HtmlTemplate.Proofs.Rendering.Keeping
import HtmlTemplate.Proofs.Rendering.Settling

/-!
# Endings run once

Endings move between the scope of a callback, the frames of a stack, and the caller of a walk.
None is lost on the way, and none is invoked twice: of the endings that are registered in a
render, those of one callback run in reverse order, until the response is halted, and all have
run when the render is over and it is not. None is left for a later render, on a stack or
elsewhere.

Results:
1. `endings_run_once`: what the journal of any program says of its endings.
2. `Component.LeavesClear`: what a walk leaves on its stack.
-/

namespace HtmlTemplate

open Journal

variable {σ ω α δ : Type}

/-- What the notes of a render say of the endings registered in it, if the response is
`halted` or not at its end. -/
structure EndingsRun (new : List Entry) (halted : Bool) : Prop where
  /-- No two endings are registered under one mark. -/
  distinct : (registered new).Nodup
  once : (ran new).Nodup
  /-- An ending that runs has been registered in the same render. -/
  ran_mem : ∀ m ∈ ran new, m ∈ registered new
  /-- The endings of one callback run in reverse order, from the last one on. -/
  reversed : ∀ k, ofCallback k (ran new) <+: (ofCallback k (registered new)).reverse
  /-- If the response is not halted, all of them have run. -/
  all : halted = false → ∀ m ∈ registered new, m ∈ ran new

theorem Adds.endingsRun {s s' : Session (Journaled σ)} {new : List Entry} {owed : List Mark}
    (h : Adds none s s' new owed) (howed : s'.response.halted = false → owed = []) :
    EndingsRun new s'.response.halted where
  distinct := h.nodup
  once := h.nodup_ran
  ran_mem _ hm := h.mem_registered_of_ran hm
  reversed k := by
    rw [← h.account k, ofCallback_append]
    exact List.prefix_append _ _
  all hs m hm := by
    have hperm := h.perm
    rw [howed hs, List.append_nil] at hperm
    exact hperm.mem_iff.mpr hm

/-- A walk leaves no ending on a stack that held none, unless the response is halted. -/
def Component.LeavesClear (c : Component (Journaled σ) δ) (data : δ) : Prop :=
  ∀ (place : Place) (stack stack' : EndingStack (Ending (Journaled σ)))
    (outcome : Outcome (Journaled σ)) (s s' : Session (Journaled σ)),
    s.response.halted = false → stack.isClear = true →
    c.walk data place stack s = .ok ((outcome, stack'), s') →
    s'.response.halted = false → stack'.isClear = true

theorem Component.leavesClear {c : Component (Journaled σ) δ} {data : δ}
    (ht : c.template.Settles data) : c.LeavesClear data :=
  fun _ _ _ _ _ _ hs hclear h hs' => (owing_of_walk ht hs hclear h).2.2 hs'

/-- Where all renders share the fields of the response, the component leaves them as it has
found them: an outermost render, which finds them empty, leaves no ending in the frame. -/
def Component.KeepsFields (c : Component ω δ) (data : δ) : Prop :=
  ∀ {code : EndingCode ω} {calls : MarkerCode ω δ}, c.template.RunsAs code calls →
    ∀ s s', c.renderOnFields code calls data s = .ok ((), s') → s'.world.fields = s.world.fields

/-- The same of a wrapper, around any payload. -/
def Wrapper.KeepsFields (w : Wrapper ω δ) (data : δ) : Prop :=
  ∀ {code : EndingCode ω} {calls : MarkerCode ω δ} {payload : Render ω Unit}
    {payload' : FieldRender ω Unit}, w.template.RunsAs code calls →
    payload.RunsAs code payload' → ∀ s s',
    w.renderOnFields code calls data payload' s = .ok ((), s') →
    s'.world.fields = s.world.fields

theorem Component.keepsFields (c : Component ω δ) (data : δ) : c.KeepsFields data :=
  fun hc _ _ hrun => (Component.keeps_render (hc.fits data)).fields_eq hrun

theorem Wrapper.keepsFields (w : Wrapper ω δ) (data : δ) : w.KeepsFields data :=
  fun hw hpayload _ _ hrun =>
    (Wrapper.keeps_render (hw.fits data) hpayload.keeps).fields_eq hrun

/-- Each ending that is registered in a render runs at most once, in that render and after the
later ones of its callback; if the response is not halted in the end, each has run. No walk
leaves an ending on its stack but with a halted response, and then the stack is cleared before
it is used again. No render leaves one in the frame of the response, halted or not. -/
theorem endings_run_once {x : Render (Journaled σ) α} (hx : x.Journals)
    {s s' : Session (Journaled σ)} {a : α} (h : x s = .ok (a, s')) :
    (∃ new, s'.entries = s.entries ++ new ∧ EndingsRun new s'.response.halted) ∧
      (∀ {δ : Type} {source : String} {declarations : List (Declaration (Journaled σ) δ)}
        (data : δ), (∀ d ∈ declarations, d.Journals) →
        (∀ c, Component.compile source declarations = .ok c → c.LeavesClear data) ∧
          ∀ w, Wrapper.compile source declarations = .ok w →
            w.preContent.LeavesClear data ∧ w.postContent.LeavesClear data) ∧
      (∀ (settings : PoolSettings) (stack : EndingStack (Ending (Journaled σ))),
        (Recyclable.recycle settings stack).isClear = true) ∧
      ∀ {ω δ : Type} (data : δ), (∀ c : Component ω δ, c.KeepsFields data) ∧
        ∀ w : Wrapper ω δ, w.KeepsFields data := by
  refine ⟨?_, fun data hd => ⟨fun c hc => ?_, fun w hw => ?_⟩, EndingStack.isClear_recycle,
    fun data => ⟨fun c => c.keepsFields data, fun w => w.keepsFields data⟩⟩
  · obtain ⟨new, owed, hadds, howed⟩ := hx.settles s a s' h
    exact ⟨new, hadds.entries_eq, hadds.endingsRun howed⟩
  · exact Component.leavesClear (Component.eachCallback_of_compile hc
      fun d hmem callback hcallback => (hd d hmem).settles callback hcallback data)
  · have ht := Wrapper.eachCallback_of_compile hw
      fun d hmem callback hcallback => (hd d hmem).settles callback hcallback data
    exact ⟨Component.leavesClear (c := w.preContent) ht,
      Component.leavesClear (c := w.postContent) ht⟩

/-- The source `<s>${{deco}A${}B}}</s>`. -/
def decoratedSource : String := "<s>$\x7b\x7bdeco\x7dA$\x7b\x7dB\x7d\x7d</s>"

/-- Its declarations: a wrapper around the content marker, with an ending. -/
def decorated : List (Declaration (Journaled Unit) Unit) :=
  [.wrapper "deco" fun _ => WrapperRender.called fun callback =>
    WrapperRender.addMarked callback (Render.reply (.writeRaw "E"))]

/-- The source `${{main}x}}`. -/
def decoratingSource : String := "$\x7b\x7bmain\x7dx\x7d\x7d"

/-- Its declarations: the content is wrapped, between two endings. -/
def decorating (w : Wrapper (Journaled Unit) Unit) : List (Declaration (Journaled Unit) Unit) :=
  [.wrapper "main" fun _ => WrapperRender.called fun callback => do
    WrapperRender.addMarked callback (Render.reply (.writeRaw "1"))
    WrapperRender.wrapMarked callback w ()
    WrapperRender.addMarked callback (Render.reply (.writeRaw "2"))]

/-- What is written is `<s>Ax2EB</s>1`: the last ending of the main wrapper runs first, and
the part behind the content marker right behind the ending carried over from before it. -/
theorem endings_run_once_of_decorating :
    ∃ w, Wrapper.compile decoratedSource decorated = .ok w ∧
      ∃ c, Component.compile decoratingSource (decorating w) = .ok c ∧
        ∃ s', c.render () (Session.fresh { world := () }) = .ok ((), s') ∧
          ran s'.entries = [⟨0, 5⟩, ⟨2, 3⟩, ⟨0, 4⟩, ⟨0, 1⟩] ∧
          ∃ new, s'.entries = new ∧ EndingsRun new false := by
  have hrun : ((Wrapper.compile decoratedSource decorated).toOption.any fun w =>
      (Component.compile decoratingSource (decorating w)).toOption.any fun c =>
        (c.render () (Session.fresh { world := () })).toOption.any fun p =>
          ran p.2.entries = [⟨0, 5⟩, ⟨2, 3⟩, ⟨0, 4⟩, ⟨0, 1⟩] && !p.2.response.halted) = true := by
    decide +kernel
  obtain ⟨w, hw, hrun⟩ := exists_ok_of_any hrun
  obtain ⟨c, hc, hrun⟩ := exists_ok_of_any hrun
  obtain ⟨⟨⟨⟩, s'⟩, hrender, hrun⟩ := exists_ok_of_any hrun
  simp only [Bool.and_eq_true, decide_eq_true_eq, Bool.not_eq_true'] at hrun
  have hdecorated : ∀ d ∈ decorated, d.Journals := by
    intro d hmem
    cases List.mem_singleton.mp hmem
    exact .wrapper rfl fun _ _ => .addEnding (.reply _)
  have hdecorating : ∀ d ∈ decorating w, d.Journals := by
    intro d hmem
    cases List.mem_singleton.mp hmem
    exact .wrapper rfl fun _ _ => .bind (.addEnding (.reply _)) fun _ =>
      .bind (.wrap () hw hdecorated) fun _ => .addEnding (.reply _)
  have hjournals : (c.render ()).Journals := .insert () hc hdecorating
  obtain ⟨new, hnew, hends⟩ := (endings_run_once hjournals hrender).1
  exact ⟨w, hw, c, hc, s', hrender, hrun.1, new, hnew, hrun.2 ▸ hends⟩

end HtmlTemplate
