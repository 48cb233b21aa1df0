import HtmlTemplate.Proofs.Rendering.Settling

/-!
# Nothing follows a halt

A response that is halted stays halted, and its output stays as it is, whatever was asked for
before: nothing is written, no attribute is added, and nothing is taken back with a dropped
element. No callback, ending or payload is invoked any more; a callback that has halted the
response goes on, and so do those around it, but what they do to the output is without effect.

Results:
1. `Journal.Quiet.pairwise`, `Journal.Quiet.running`: what is known of any two moments of a
   render, and of each invocation.
2. `nothing_follows_halt`: what the journal of any program says of halts. A walk says that it
   is halted exactly if the response is.
-/

namespace HtmlTemplate

open Journal

variable {σ α : Type}

/-- Any two responses, one later than the other: if the earlier one is halted, then so is the
later one, with the same output. -/
theorem Journal.Quiet.pairwise {r r' : Response} {entries : List Entry}
    (h : Quiet r entries r') :
    (r :: (entries.map (·.response) ++ [r'])).Pairwise Response.Frozen := by
  induction entries generalizing r with
  | nil => exact List.pairwise_pair.mpr h
  | cons e rest ih =>
    obtain ⟨he, -, hrest⟩ := h
    have hlater := ih hrest
    refine List.pairwise_cons.mpr ⟨fun r'' hr'' => ?_, hlater⟩
    rcases List.mem_cons.mp hr'' with rfl | hr''
    · exact he
    · exact he.trans (List.rel_of_pairwise_cons hlater hr'')

/-- What is invoked is invoked before the response is halted. -/
theorem Journal.Quiet.running {r r' : Response} {entries : List Entry}
    (h : Quiet r entries r') :
    ∀ e ∈ entries, e.event.isInvocation = true → e.response.halted = false := by
  induction entries generalizing r with
  | nil => exact fun e he => by cases he
  | cons e rest ih => exact List.forall_mem_cons.mpr ⟨h.2.1, ih h.2.2⟩

/-- Of any two moments of a render, if the response is halted at the first one, then it is so
at the second one, with the same output; whenever something is invoked, the response is not
halted. A run of a component, and a walk that is begun, say that they are halted exactly if
the response is. -/
theorem nothing_follows_halt {x : Render (Journaled σ) α} (hx : x.Journals)
    {s s' : Session (Journaled σ)} {a : α} (h : x s = .ok (a, s')) :
    (∃ new, s'.entries = s.entries ++ new ∧
      (s.response :: (new.map (·.response) ++ [s'.response])).Pairwise Response.Frozen ∧
      ∀ e ∈ new, e.event.isInvocation = true → e.response.halted = false) ∧
      ∀ {ω δ : Type} (c : Component ω δ) (data : δ) (place : Place) (s s' : Session ω)
        (outcome : Outcome ω),
        (c.run data place s = .ok (outcome, s') →
          (outcome = .halted ↔ s'.response.halted = true)) ∧
        ∀ stack stack', s.response.halted = false →
          c.walk data place stack s = .ok ((outcome, stack'), s') →
            (outcome = .halted ↔ s'.response.halted = true) := by
  refine ⟨?_, fun c data place s s' outcome => ⟨Component.halted_iff_of_run, ?_⟩⟩
  · obtain ⟨new, owed, hadds, -⟩ := hx.settles s a s' h
    exact ⟨new, hadds.entries_eq, hadds.quiet.pairwise, hadds.quiet.running⟩
  · exact fun stack stack' hs hwalk => Component.halted_iff_of_loop hwalk hs

/-- The source `x${{w}<p ${stop}>t</p>}}`. -/
def stoppedSource : String := "x$\x7b\x7bw\x7d<p $\x7bstop\x7d>t</p>\x7d\x7d"

/-- Its declarations: an element is to be dropped whose callback halts the response, and
writes on. The wrapper around it has an ending. -/
def stopped : List (Declaration (Journaled Unit) Unit) :=
  [.wrapper "w" fun _ => WrapperRender.called fun callback =>
    WrapperRender.addMarked callback (Render.reply (.writeRaw "E")),
   .attributes "stop" fun _ => AttributeRender.called do
    AttributeRender.skipElement
    StateT.lift (Render.reply .halt)
    StateT.lift (Render.reply (.writeRaw "y"))]

/-- The element is not dropped, and the ending does not run. -/
theorem nothing_follows_halt_of_stopped :
    ∃ c, Component.compile stoppedSource stopped = .ok c ∧
      ∃ s', c.render () (Session.fresh { world := () }) = .ok ((), s') ∧
        s'.entries.map (·.event) =
          [.called, .registered ⟨0, 1⟩, .called, .responded, .responded] ∧
        s'.response.output = "x<p ".toUTF8 ∧
        ∃ new, s'.entries = new ∧
          (new.map (·.response) ++ [s'.response]).Pairwise Response.Frozen ∧
          ∀ e ∈ new, e.event.isInvocation = true → e.response.halted = false := by
  have hrun : ((Component.compile stoppedSource stopped).toOption.any fun c =>
      (c.render () (Session.fresh { world := () })).toOption.any fun p =>
        p.2.entries.map (·.event) =
          [.called, .registered ⟨0, 1⟩, .called, .responded, .responded] &&
        p.2.response.output = "x<p ".toUTF8) = true := by
    decide +kernel
  obtain ⟨c, hc, hrun⟩ := exists_ok_of_any hrun
  obtain ⟨⟨⟨⟩, s'⟩, hrender, hrun⟩ := exists_ok_of_any hrun
  simp only [Bool.and_eq_true, decide_eq_true_eq] at hrun
  have hstopped : ∀ d ∈ stopped, d.Journals := by
    intro d hmem
    rcases List.mem_cons.mp hmem with rfl | hmem
    · exact .wrapper rfl fun _ _ => .addEnding (.reply _)
    · cases List.mem_singleton.mp hmem
      exact .attributes rfl fun _ => .bind .skipElement fun _ =>
        .bind (.lift (.reply _)) fun _ => .lift (.reply _)
  have hjournals : (c.render ()).Journals := .insert () hc hstopped
  obtain ⟨new, hnew, hfrozen, hinvoked⟩ := (nothing_follows_halt hjournals hrender).1
  exact ⟨c, hc, s', hrender, hrun.1, hrun.2, new, hnew, (List.pairwise_cons.mp hfrozen).2, hinvoked⟩

end HtmlTemplate
