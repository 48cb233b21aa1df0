import HtmlTemplate.Proofs.Rendering.Evaluation

/-!
# Rendering around a payload

The two parts of a wrapper are walks over a template that is cut at its content
marker. If wrappers are open there, the first walk ends inside of them, and the
second one begins inside of them but with none of them on its stack.

Results:
1. `Outline.KeepsAround`: nothing is dropped that holds the content marker.
2. `continues_evalBefore`: the part before the content marker withholds the
   endings of the wrappers that are open at its end.
3. `continues_evalBehind`: the part behind it runs nothing at their ends.
4. `Wrapper.render_of_keepsAround`, `Wrapper.render_eq_evalAround`: a wrapper is
   rendered as its outline is evaluated around the payload.
-/

namespace HtmlTemplate

open Render Outline

variable {ω δ : Type}

/-- The callback does not ask to drop the content of its wrapper. -/
def WrapperRender.Keeps (run : WrapperRender ω Unit) : Prop :=
  ∀ s u scope s', run.run {} s = .ok ((u, scope), s') → scope.skipContent = false

namespace Outline

variable {data : δ} {o : Outline ω δ}

/-! ## 1. Outlines whose content marker is kept -/

/-- No callback in a start tag asks to drop anything, and no wrapper that the content
marker stands in drops its content. Other wrappers may drop theirs. -/
def KeepsAround (data : δ) : Outline ω δ → Prop
  | stop => True
  | text _ rest => rest.KeepsAround data
  | content rest => rest.KeepsAround data
  | plain _ rest => rest.KeepsAround data
  | attributes run rest => (run data).Keeps ∧ rest.KeepsAround data
  | wrapper run inside rest =>
    (inside.hasContent = true → (run data).Keeps) ∧ inside.KeepsAround data ∧
      rest.KeepsAround data
  | folded inside rest => inside.KeepsAround data ∧ rest.KeepsAround data

@[simp] theorem keepsAround_chars (html : String) :
    (chars html o).KeepsAround data ↔ o.KeepsAround data := by
  unfold chars
  induction html.toList with
  | nil => rfl
  | cons c cs ih => exact ih

theorem Forall.keepsAround
    (h : o.Forall (fun run => (run data).Keeps) fun run => (run data).Keeps) :
    o.KeepsAround data := by
  induction o with
  | stop => trivial
  | text _ rest ih | content rest ih | plain _ rest ih => exact ih h
  | attributes run rest ih => exact ⟨h.1, ih h.2⟩
  | wrapper run inside rest ihi ih => exact ⟨fun _ => h.1, ihi h.2.1, ih h.2.2⟩
  | folded inside rest ihi ih => exact ⟨ihi h.1, ih h.2⟩

theorem KeepsAround.elements (h : o.KeepsAround data) :
    o.Forall (fun run => (run data).Keeps) fun _ => True := by
  induction o with
  | stop => trivial
  | text _ rest ih | content rest ih | plain _ rest ih => exact ih h
  | attributes run rest ih => exact ⟨h.1, ih h.2⟩
  | wrapper run inside rest ihi ih => exact ⟨trivial, ihi h.2.1, ih h.2.2⟩
  | folded inside rest ihi ih => exact ⟨ihi h.1, ih h.2⟩

end Outline

namespace Component

variable {c : Component ω δ} {data : δ} {room : Nat} {o : Outline ω δ} {p q : Place}
  {frames : List (List (Ending ω))} {k : Render ω (Outcome ω)}

/-! ## 2. The part before the content marker -/

/-- What a walk up to the content marker does that goes on with the outline inside
of wrappers with the given frames. -/
def before (data : δ) (frames : List (List (Ending ω))) (o : Outline ω δ) :
    Render ω (Outcome ω) := do
  let withheld ← o.evalBefore data
  if ← Render.isHalted then return .halted
  else return .finished (withheld ++ frames.reverse.flatten)

/-- Once the response is halted, no endings are handed over. -/
theorem before_of_halted (data : δ) (frames : List (List (Ending ω))) (o : Outline ω δ)
    {s : Session ω} (hs : s.response.halted = true) :
    before data frames o s = .ok (.halted, s) := by
  obtain ⟨withheld, h⟩ := idle_evalBefore data o s hs
  unfold before
  rw [bind_of_ok h]
  simp [hs]

theorem andThen_before (x : Render ω Unit) (data : δ) (frames : List (List (Ending ω)))
    (o : Outline ω δ) : andThen x (before data frames o) = (do x; before data frames o) := by
  funext s
  refine bind_congr_of_ok ?_
  intro _ s' _
  cases hs : s'.response.halted with
  | true =>
    rw [before_of_halted data frames o hs]
    simp [hs]
  | false => simp [hs]

/-- At the content marker the endings of all open wrappers are handed over, those of
the innermost one first. -/
theorem handOver_eq {cur : Cursor ω} (hpart : c.part = .preContent) (hcur : cur.At p frames room) :
    ∃ stack, c.handOver cur = pure (frames.reverse.flatten, stack) := by
  obtain ⟨n, -, hs⟩ := hcur.stack
  unfold handOver
  split
  · next hd =>
    have : frames = [] := List.eq_nil_of_length_eq_zero (hcur.depth ▸ hd)
    subst this
    exact ⟨cur.stack, rfl⟩
  · rw [EndingStack.openEndings, hs, hcur.depth, List.take_left]
    exact ⟨_, rfl⟩

/-- The content marker stands in a wrapper: its endings are withheld. -/
theorem before_wrapper {run : δ → WrapperRender ω Unit} {inside rest : Outline ω δ}
    {s : Session ω} (hci : inside.hasContent = true) (hr : s.response.halted = false) :
    before data frames (.wrapper run inside rest) s =
      (do let (_, scope) ← (run data).run {}
          if ← Render.isHalted then return Outcome.halted
          else before data (frames ++ [scope.endings]) inside) s := by
  simp only [before, evalBefore, hci, if_true, bind_assoc, isHalted_bind, hr, Bool.false_eq_true,
    if_false]
  refine bind_congr_of_ok ?_
  rintro ⟨u, scope⟩ s' _
  cases hs' : s'.response.halted with
  | true =>
    obtain ⟨withheld, h⟩ := idle_evalBefore data inside s' hs'
    rw [bind_of_ok h]
    simp [hs']
  | false => simp [hs']

theorem continues_content (hpart : c.part = .preContent)
    (hs : c.exit.offset ≤ c.template.html.size) :
    c.Continues data room c.exit frames
      (do if ← Render.isHalted then return .halted
          else return .finished frames.reverse.flatten) := by
  intro cur s hcur hr
  obtain ⟨stack, hover⟩ := handOver_eq hpart (hcur.reach cur.elements cur.tagMark)
  rw [outcome_of_exit hcur.jump (Nat.le_of_eq hcur.marker.symm) hcur.offset hs hr hover]
  simp [hr]

/-- A walk up to the content marker evaluates what stands before it. -/
theorem continues_evalBefore (hl : LaidOut c.template (some c.exit) room o p q)
    (hpart : c.part = .preContent) (hc : o.hasContent = true) (hkeep : o.KeepsAround data)
    (hentry : c.entry.marker ≤ p.marker) :
    c.Continues data room p frames (before data frames o) := by
  -- The frames grow with each wrapper that the content marker stands in.
  induction hl generalizing frames with
  | stop _ => cases hc
  | text hhtml _ ih =>
    refine (continues_text hhtml (ih hc hkeep hentry)).congr ?_
    intro s _
    simp only [before, evalBefore, bind_assoc]
  | content hx hrest _ =>
    cases hx
    refine (continues_content hpart (Nat.le_trans hrest.le.2.1 hrest.le.2.2)).congr ?_
    intro s _
    simp [before, evalBefore]
  | plain hm hrest ih =>
    have hle := hrest.le
    have hx := hrest.content_between hc
    refine (continues_plain (Nat.lt_of_succ_le hx.1) hm (Nat.le_trans hle.2.1 hle.2.2)
      (ih hc hkeep (Nat.le_succ_of_le hentry))).congr ?_
    intro s _
    rw [andThen_before]
    simp only [before, evalBefore, bind_assoc]
  | attributes hm helement hrest ih =>
    have hle := hrest.le
    have hx := hrest.content_between hc
    refine (continues_attributes (Nat.lt_of_succ_le hx.1) hm helement
      (Nat.le_trans hle.2.1 hle.2.2) hkeep.1
      (ih hc hkeep.2 (Nat.le_succ_of_le hentry))).congr ?_
    intro s _
    rw [andThen_before]
    simp only [before, evalBefore, bind_assoc]
  | @wrapper room run inside rest p q r hm hinside hend hrest ihi ih =>
    have hle := hinside.le
    cases hci : inside.hasContent with
    | true =>
      have hx := hinside.content_between hci
      refine (continues_wrapperStart
        (k := fun scope => before data (frames ++ [scope.endings]) inside)
        (Nat.lt_of_succ_le hx.1) hm (Nat.le_trans hle.2.1 hle.2.2) ?_
        (fun scope _ => ihi hci hkeep.2.1 (Nat.le_succ_of_le hentry))).congr ?_
      -- The callback does not ask to drop its content, and with it the content marker.
      · intro scope cur cur₀ s₀ s u hrun hskip
        rw [hkeep.1 hci s₀ u scope s hrun] at hskip
        cases hskip
      · intro s hr
        exact (before_wrapper hci hr).symm
    | false =>
      have hcr : rest.hasContent = true := by simpa [hasContent, hci] using hc
      have hx := hrest.content_between hcr
      refine (continues_wrapper (Nat.lt_of_succ_le hx.1) hle.1 hle.2.1 hle.2.2 hentry hm hend
        (idle_eval data inside) ?_ (ih hcr hkeep.2.2 ?_)).congr ?_
      · intro endings k' hk'
        exact continues_eval hinside hkeep.2.1.elements (Nat.le_succ_of_le hentry)
          (Nat.le_of_succ_le hx.1) hk'
      · exact Nat.le_trans hentry (Nat.le_of_succ_le (Nat.le_succ_of_le hle.1))
      · intro s _
        rw [andThen_before]
        simp only [before, evalBefore, hci, Bool.false_eq_true, if_false, bind_assoc]
  | @folded room inside rest p q r hinside hrest ihi ih =>
    cases hci : inside.hasContent with
    | true =>
      refine (ihi hci hkeep.1 hentry).congr ?_
      intro s _
      simp only [before, evalBefore, hci, if_true]
    | false =>
      have hcr : rest.hasContent = true := by simpa [hasContent, hci] using hc
      refine (continues_eval hinside hkeep.1.elements hentry (hrest.content_between hcr).1
        (ih hcr hkeep.2 (Nat.le_trans hentry hinside.le.1))).congr ?_
      intro s _
      rw [andThen_before]
      simp only [before, evalBefore, hci, Bool.false_eq_true, if_false, bind_assoc]

/-! ## 3. The part behind the content marker -/

/-- A walk from the content marker on evaluates what stands behind it. -/
theorem continues_evalBehind {room' : Nat} (hl : LaidOut c.template (some c.entry) room o p q)
    (hroom : room ≤ room') (hc : o.hasContent = true)
    (hkeep : o.Forall (fun run => (run data).Keeps) fun _ => True)
    (hexit : q.marker ≤ c.exit.marker) (h : c.Continues data room' q frames k) :
    c.Continues data room' c.entry frames (andThen (o.evalBehind data) k) := by
  induction hl generalizing k room' with
  | stop _ => cases hc
  | text _ _ ih => exact ih hroom hc hkeep hexit h
  | plain _ _ ih => exact ih hroom hc hkeep hexit h
  | attributes _ _ _ ih => exact ih hroom hc hkeep.2 hexit h
  | content hx hrest _ =>
    cases hx
    exact continues_eval (hrest.mono hroom) hkeep (Nat.le_refl _) hexit h
  | @wrapper room run inside rest p q r hm hinside hend hrest ihi ih =>
    have hle := hinside.le
    cases hci : inside.hasContent with
    | true =>
      have hx := hinside.content_between hci
      -- Behind its end everything is evaluated as in any component.
      have hbehind :=
        continues_eval (hrest.mono hroom) hkeep.2.2 (Nat.le_succ_of_le hx.2.2.1) hexit h
      have hclose := continues_wrapperEnd_before (Nat.lt_of_lt_of_le hrest.le.1 hexit) hend
        (Nat.lt_of_succ_le hx.1) hle.2.2 hbehind
      rw [evalBehind, if_pos hci, andThen_seq (idle_eval data rest)]
      exact ihi (Nat.le_of_succ_le hroom) hci hkeep.2.1
        (Nat.le_trans (Nat.le_of_succ_le hrest.le.1) hexit) hclose
    | false =>
      have hcr : rest.hasContent = true := by simpa [hasContent, hci] using hc
      rw [evalBehind, if_neg (by simp [hci])]
      exact ih hroom hcr hkeep.2.2 hexit h
  | @folded room inside rest p q r hinside hrest ihi ih =>
    cases hci : inside.hasContent with
    | true =>
      have hx := hinside.content_between hci
      rw [evalBehind, if_pos hci, andThen_seq (idle_eval data rest)]
      exact ihi hroom hci hkeep.1 (Nat.le_trans hrest.le.1 hexit)
        (continues_eval (hrest.mono hroom) hkeep.2 hx.2.2.1 hexit h)
    | false =>
      have hcr : rest.hasContent = true := by simpa [hasContent, hci] using hc
      rw [evalBehind, if_neg (by simp [hci])]
      exact ih hroom hcr hkeep.2 hexit h

end Component

/-! ## 4. Wrappers -/

/-- The callback of the declaration, if it is run at a wrapper start, does not ask to
drop the content of the wrapper. -/
def Declaration.KeepsContent (d : Declaration ω δ) : Prop :=
  ∀ run, d.callback = some (.wrapper run) → ∀ data, (run data).Keeps

namespace Wrapper

variable {w : Wrapper ω δ} {o : Outline ω δ} {data : δ}

/-- The part behind the content marker evaluates what stands behind it. -/
theorem renderPost_eq_evalBehind
    (hl : LaidOut w.template (some w.content) w.maxNesting o w.template.start w.template.stop)
    (hc : o.hasContent = true)
    (hkeep : o.Forall (fun run => (run data).Keeps) fun _ => True) :
    w.renderPost data w.content = o.evalBehind data := by
  funext s
  cases hs : s.response.halted with
  | true =>
    unfold renderPost
    rw [bind_of_ok (Component.run_of_halted _ data _ hs), (idle_evalBehind data o).run_unit hs]
    rfl
  | false =>
    have hbehind := Component.continues_evalBehind (c := w.postContent) hl (Nat.le_refl _) hc hkeep
      (Nat.le_refl _) (Component.continues_exit hl.le.2.2)
    have hrun := Component.run_of_continues hbehind hs
    have hend := congrFun (andThen_finished (o.evalBehind data) (f := fun _ => pure ()) rfl rfl) s
    rw [← hend]
    exact bind_eq_of_eq hrun

/-- The part before the content marker evaluates what stands before it. -/
theorem run_preContent
    (hl : LaidOut w.template (some w.content) w.maxNesting o w.template.start w.template.stop)
    (hc : o.hasContent = true) (hkeep : o.KeepsAround data) :
    w.preContent.run data w.preContent.entry = Component.before data [] o := by
  funext s
  cases hs : s.response.halted with
  | true => rw [Component.run_of_halted _ data _ hs, Component.before_of_halted data [] o hs]
  | false =>
    have hbefore : w.preContent.Continues data w.maxNesting w.preContent.entry []
        (Component.before data [] o) :=
      Component.continues_evalBefore hl rfl hc hkeep (Nat.le_refl _)
    exact Component.run_of_continues hbefore hs

/-- A wrapper is rendered as its outline is evaluated around the payload, as long as
nothing is dropped that holds the content marker. -/
theorem render_of_keepsAround
    (hl : LaidOut w.template (some w.content) w.maxNesting o w.template.start w.template.stop)
    (hc : o.hasContent = true) (hkeep : o.KeepsAround data) (payload : Render ω Unit) :
    w.render data payload = o.evalAround data payload := by
  have hpost := renderPost_eq_evalBehind hl hc hkeep.elements
  -- Once the response is halted, nothing is done with the endings withheld so far.
  have hidle : ∀ withheld, Idle (do
      unlessHalted payload
      runEndings withheld
      o.evalBehind data) := fun withheld =>
    idle_bind (idle_unlessHalted payload) fun _ =>
      idle_bind (idle_runEndings withheld) fun _ => idle_evalBehind data o
  funext s
  rw [render, evalAround, run_preContent hl hc hkeep, Component.before, bind_assoc]
  refine bind_congr_of_ok ?_
  intro withheld s' _
  cases hs : s'.response.halted with
  | true =>
    rw [(hidle withheld).run_unit hs]
    simp [hs]
  | false =>
    rw [bind_eq_of_eq (unlessHalted_of_running payload hs)]
    simp [hs, hpost]

/-- If no callback asks to drop anything, the content marker is reached. -/
theorem ne_swallowed_of_compile {source : String} {declarations : List (Declaration ω δ)}
    (h : Wrapper.compile source declarations = .ok w)
    (helement : ∀ d ∈ declarations, d.KeepsElement)
    (hcontent : ∀ d ∈ declarations, d.KeepsContent) {s s' : Session ω} {outcome : Outcome ω}
    (hrun : w.preContent.run data w.preContent.entry s = .ok (outcome, s')) (resume : Place)
    (carried : List (Ending ω)) : outcome ≠ .swallowed resume carried := by
  obtain ⟨o, ho, hc, hl⟩ := Wrapper.laidOut_of_compile h
  have hall : o.Forall (fun run => (run data).Keeps) fun run => (run data).Keeps :=
    forall_of_ofSource? (fun d hd => ⟨fun run hr => helement d hd run hr data,
      fun run hr => hcontent d hd run hr data⟩) ho
  rw [run_preContent hl hc hall.keepsAround] at hrun
  obtain ⟨withheld, s₁, -, hrun⟩ := ok_of_bind hrun
  rw [isHalted_bind] at hrun
  cases hs : s₁.response.halted with
  | true =>
    rw [hs] at hrun
    cases hrun
    exact fun heq => by cases heq
  | false =>
    rw [hs] at hrun
    cases hrun
    exact fun heq => by cases heq

end Wrapper

/-- If no callback asks to drop anything, a wrapper is rendered as its outline is
evaluated around the payload. -/
theorem Wrapper.render_eq_evalAround {source : String} {declarations : List (Declaration ω δ)}
    {w : Wrapper ω δ} (h : Wrapper.compile source declarations = .ok w)
    (helement : ∀ d ∈ declarations, d.KeepsElement)
    (hcontent : ∀ d ∈ declarations, d.KeepsContent) :
    ∃ o, Outline.ofSource? source declarations = some o ∧ o.hasContent = true ∧
      ∀ data payload, w.render data payload = o.evalAround data payload := by
  obtain ⟨o, ho, hc, hl⟩ := Wrapper.laidOut_of_compile h
  have hall : o.Forall (fun run => ∀ data, (run data).Keeps) fun run => ∀ data, (run data).Keeps :=
    forall_of_ofSource? (fun d hd => ⟨helement d hd, hcontent d hd⟩) ho
  refine ⟨o, ho, hc, fun data payload => ?_⟩
  have hkeep := (hall.imp (fun run h => h data) fun run h => h data).keepsAround
  exact render_of_keepsAround hl hc hkeep payload

/-- The source `${{frame}<h1>${title}</h1>${}}}`. -/
def framedContentSource : String := "$\x7b\x7bframe\x7d<h1>$\x7btitle\x7d</h1>$\x7b\x7d\x7d\x7d"

/-- Its declarations: a frame that ends behind the content, and a title. -/
def framedContent : List (Declaration Unit String) :=
  [.wrapper "frame" fun _ => WrapperRender.addEnding (Render.writeRaw "<hr>"),
   .plain "title" fun title => Render.write title]

theorem Wrapper.render_eq_evalAround_of_framedContent :
    ∃ w o, Wrapper.compile framedContentSource framedContent = .ok w ∧
      Outline.ofSource? framedContentSource framedContent = some o ∧
      o.hasContent = true ∧ ∀ data payload, w.render data payload = o.evalAround data payload := by
  have helement : ∀ d ∈ framedContent, d.KeepsElement := by
    intro d hmem run hrun
    simp only [framedContent, List.mem_cons, List.not_mem_nil, or_false] at hmem
    rcases hmem with rfl | rfl <;> cases hrun
  have hcontent : ∀ d ∈ framedContent, d.KeepsContent := by
    intro d hmem run hrun data s u scope s' h
    simp only [framedContent, List.mem_cons, List.not_mem_nil, or_false] at hmem
    rcases hmem with rfl | rfl
    · cases hrun
      cases h
      rfl
    · cases hrun
  obtain ⟨w, hw⟩ := exists_eq_ok
    (x := Wrapper.compile framedContentSource framedContent) (by decide +kernel)
  obtain ⟨o, ho, hc, heval⟩ := Wrapper.render_eq_evalAround hw helement hcontent
  exact ⟨w, o, hw, ho, hc, heval⟩

/-- The ending of the frame runs behind the payload. -/
example :
    ((Wrapper.compile framedContentSource framedContent).toOption.bind fun w =>
      (w.render "a" (Render.write "b") (.fresh ())).toOption.map fun p => p.2.response.output) =
      some "<h1>a</h1>b<hr>".toUTF8 := by
  decide +kernel

end HtmlTemplate
