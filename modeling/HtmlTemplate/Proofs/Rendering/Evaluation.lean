import HtmlTemplate.Proofs.Rendering.Steps
import HtmlTemplate.Proofs.Template.Compiled

/-!
# Walks evaluate outlines

A walk over a part of a template does what the evaluation of the outline does
that is laid out there. The two are compared from the end: `Continues` says
what a walk does from a place on, and each node of an outline is put in front
of that.

A place determines the cursor but for the tags passed and the literal bytes not
yet written, so those are left open (`Cursor.At`).

Results:
1. `continues_of_marker`, `continues_wrapper`, `continues_text`: a walk over one node.
2. `continues_eval`: a walk over a laid out outline evaluates it.
3. `Component.render_eq_eval`: a component is rendered as its outline is evaluated.
-/

namespace HtmlTemplate

open Render

variable {ω δ : Type}

/-! ## 1. What follows unless the response is halted -/

/-- Does `x`, and goes on with `k` unless the response is halted. -/
def andThen (x : Render ω Unit) (k : Render ω (Outcome ω)) : Render ω (Outcome ω) := do
  x
  if ← Render.isHalted then return .halted else k

section AndThen

variable {x y : Render ω Unit} {k k' : Render ω (Outcome ω)} {s s' : Session ω}

theorem andThen_of_halted (hx : x s = .ok ((), s')) (hs : s'.response.halted = true) :
    andThen x k s = .ok (.halted, s') := by
  unfold andThen
  rw [bind_of_ok hx]
  simp [hs]

theorem andThen_of_running (hx : x s = .ok ((), s')) (hs : s'.response.halted = false) :
    andThen x k s = k s' := by
  unfold andThen
  rw [bind_of_ok hx]
  simp [hs]

theorem andThen_unlessHalted (hs : s.response.halted = false) :
    andThen (unlessHalted x) k s = andThen x k s := by
  exact bind_eq_of_eq (unlessHalted_of_running x hs)

theorem andThen_pure (hs : s.response.halted = false) : andThen (pure ()) k s = k s :=
  andThen_of_running rfl hs

/-- Two computations in sequence, of which the second does nothing once the response
is halted. -/
theorem andThen_seq (hy : Idle y) : andThen (do x; y) k = andThen x (andThen y k) := by
  funext s
  unfold andThen
  rw [bind_assoc]
  refine bind_congr_of_ok ?_
  intro _ s' _
  cases hs : s'.response.halted with
  | true =>
    rw [bind_of_ok (hy.run_unit hs)]
    simp [hs]
  | false => simp [hs]

end AndThen

/-! ## 2. Cursors at a place -/

/-- The cursor stands at the place `p`, up to literal bytes not yet written, inside
of wrappers with the given frames. There is room for `room` wrappers more. -/
structure Cursor.At (cur : Cursor ω) (p : Place) (frames : List (List (Ending ω))) (room : Nat) :
    Prop where
  marker : cur.marker = p.marker
  offset : cur.offset ≤ p.offset
  depth : cur.depth = frames.length
  jump : cur.jump = none
  stack : ∃ n, room ≤ n ∧ cur.stack.frames = frames ++ List.replicate n []

namespace Cursor.At

variable {cur : Cursor ω} {p : Place} {frames : List (List (Ending ω))} {endings : List (Ending ω)}
  {room : Nat}

/-- Literal bytes may still be there to be written. -/
theorem of_le {q : Place} (h : cur.At p frames room) (hm : p.marker = q.marker)
    (hle : p.offset ≤ q.offset) : cur.At q frames room :=
  ⟨h.marker.trans hm, Nat.le_trans h.offset hle, h.depth, h.jump, h.stack⟩

/-- The cursor when the marker has been reached. -/
theorem reach (h : cur.At p frames room) (elements : List Element) (tagMark : Option TagMark) :
    { cur with offset := p.offset, elements := elements, tagMark := tagMark }.At p frames room :=
  ⟨h.marker, Nat.le_refl _, h.depth, h.jump, h.stack⟩

theorem next (h : cur.At p frames room) : cur.next.At p.next frames room :=
  ⟨congrArg (· + 1) h.marker, h.offset, h.depth, h.jump, h.stack⟩

/-- The frame for the next wrapper is empty. -/
theorem frame_eq (h : cur.At p frames (room + 1)) : cur.frame cur.depth = pure [] := by
  obtain ⟨n, hn, hs⟩ := h.stack
  have hframe : cur.stack.frame? cur.depth = some [] := by
    rw [EndingStack.frame?, hs, h.depth, List.getElem?_append_right (Nat.le_refl _), Nat.sub_self,
      List.getElem?_replicate]
    exact if_pos (Nat.lt_of_lt_of_le (Nat.succ_pos room) hn)
  simp [Cursor.frame, hframe]

/-- A wrapper is opened with the given endings. -/
theorem opened (h : cur.At p frames (room + 1)) (endings : List (Ending ω)) :
    { cur with
      depth := cur.depth + 1
      stack := cur.stack.setFrame cur.depth endings }.At p (frames ++ [endings]) room := by
  obtain ⟨n, hn, hs⟩ := h.stack
  obtain ⟨n, rfl⟩ : ∃ n', n = n' + 1 := ⟨n - 1, by omega⟩
  refine ⟨h.marker, h.offset, ?_, h.jump, n, Nat.le_of_succ_le_succ hn, ?_⟩
  · simp [h.depth]
  · show (cur.stack.frames.set cur.depth endings) = _
    rw [hs, h.depth, List.set_append_right _ _ (Nat.le_refl _), Nat.sub_self, List.replicate_succ,
      List.set_cons_zero, List.append_assoc]
    rfl

/-- The innermost wrapper is closed: its endings run, and its frame is empty again. -/
theorem closed (h : cur.At p (frames ++ [endings]) room) :
    ∃ cur' : Cursor ω, cur'.At p.next frames (room + 1) ∧ cur'.offset = cur.offset ∧
      Component.closeWrapper cur = (do runEndings endings; Component.proceed cur') := by
  obtain ⟨n, hn, hs⟩ := h.stack
  have hdepth : cur.depth = frames.length + 1 := by simpa using h.depth
  have hframe : cur.stack.frame? frames.length = some endings := by
    rw [EndingStack.frame?, hs, List.append_assoc, List.getElem?_append_right (Nat.le_refl _),
      Nat.sub_self]
    rfl
  refine ⟨{ cur.next with
      depth := frames.length
      stack := cur.stack.setFrame frames.length [] }, ?_, rfl, ?_⟩
  · refine ⟨congrArg (· + 1) h.marker, h.offset, rfl, h.jump, n + 1, Nat.succ_le_succ hn, ?_⟩
    show (cur.stack.frames.set frames.length []) = _
    rw [hs, List.append_assoc, List.set_append_right _ _ (Nat.le_refl _), Nat.sub_self]
    rfl
  · unfold Component.closeWrapper
    rw [hdepth]
    simp [Cursor.frame, hframe]

end Cursor.At

/-! ## 3. Single nodes -/

/-- The callback does not ask to drop its element or the content of its element. -/
def AttributeRender.Keeps (run : AttributeRender ω Unit) : Prop :=
  ∀ s u scope s', run.run {} s = .ok ((u, scope), s') →
    scope.skipElement = false ∧ scope.skipContent = false

namespace Component

/-- From the place `p` on, inside of wrappers with the given frames, a walk does what
`k` does. -/
def Continues (c : Component ω δ) (data : δ) (room : Nat) (p : Place)
    (frames : List (List (Ending ω))) (k : Render ω (Outcome ω)) : Prop :=
  ∀ (cur : Cursor ω) (s : Session ω), cur.At p frames room → s.response.halted = false →
    c.outcome data cur s = k (c.template.wrote cur.offset p.offset s)

variable {c : Component ω δ} {data : δ} {room : Nat} {p q : Place}
  {frames : List (List (Ending ω))} {k k' : Render ω (Outcome ω)}

theorem Continues.congr (h : c.Continues data room p frames k)
    (hk : ∀ s : Session ω, s.response.halted = false → k s = k' s) :
    c.Continues data room p frames k' := by
  intro cur s hcur hs
  rw [h cur s hcur hs]
  exact hk _ (by simpa using hs)

/-- A walk goes on from a marker as it does from behind it. -/
theorem Continues.here (h : c.Continues data room p frames k) {cur : Cursor ω} {s : Session ω}
    (hcur : cur.At p frames room) (ho : cur.offset = p.offset) (hs : s.response.halted = false) :
    c.outcome data cur s = k s := by
  rw [h cur s hcur hs, ho, Template.wrote_self]

/-- If a marker does `x` and proceeds, then a walk does `x` and what follows. -/
theorem follow_proceed {cur cur' : Cursor ω} {x : Render ω Unit} {s : Session ω}
    (h : c.Continues data room q frames k) (hcur' : cur'.At q frames room)
    (ho : cur'.offset = q.offset) (hj : cur.jump = none) (hm : cur.marker < q.marker)
    (he : cur.marker < c.exit.marker) :
    ((do x; proceed cur') >>= c.follow data cur) s = andThen x k s := by
  rw [bind_assoc]
  refine bind_congr_of_ok ?_
  intro _ s' _
  unfold proceed
  cases hs : s'.response.halted with
  | true =>
    simp [hs, bind_assoc, follow]
  | false =>
    simp only [bind_assoc, isHalted_bind, hs, Bool.false_eq_true, if_false, pure_bind]
    rw [follow_goto hj hcur'.jump (hcur'.marker ▸ hm) he, h.here hcur' ho hs]

/-- A walk that comes to a marker does what the marker says. -/
theorem continues_of_marker {m : Marker ω δ} (he : p.marker < c.exit.marker)
    (hm : c.template.markers[p.marker]? = some m) (hp : m.position = p.offset)
    (hs : p.offset ≤ c.template.html.size)
    (h : ∀ (cur cur₀ : Cursor ω) (s : Session ω), cur.At p frames room →
      cur.offset = p.offset → s.response.halted = false → cur₀.jump = none →
      cur₀.marker = p.marker → (c.act data cur m >>= c.follow data cur₀) s = k s) :
    c.Continues data room p frames k := by
  intro cur s hcur hr
  obtain ⟨elements, tagMark, hout⟩ := outcome_of_marker hcur.jump
    (hcur.marker ▸ he) (hcur.marker ▸ hm) (hp ▸ hcur.offset) (hp ▸ hs) hr
  rw [hout, hp]
  exact h _ cur _ (hcur.reach elements tagMark) rfl (by simpa using hr) hcur.jump hcur.marker

theorem continues_plain {run : δ → Render ω Unit} (he : p.marker < c.exit.marker)
    (hm : c.template.HasMarker p (.plain run)) (hs : p.offset ≤ c.template.html.size)
    (h : c.Continues data room p.next frames k) :
    c.Continues data room p frames (andThen (unlessHalted (run data)) k) := by
  obtain ⟨m, hm, hp, ha⟩ := hm
  refine continues_of_marker he hm hp hs ?_
  intro cur cur₀ s hcur ho hr hj hm₀
  rw [andThen_unlessHalted hr]
  simp only [act, ha, runPlain]
  exact follow_proceed h hcur.next ho hj (hm₀ ▸ Nat.lt_succ_self _) (hm₀ ▸ he)

theorem runAttributes_of_keeps {cur : Cursor ω} {run : AttributeRender ω Unit} {e : Element}
    (hkeep : run.Keeps) (s : Session ω) :
    c.runAttributes cur run e s =
      ((do let _ ← run.run {}) >>= fun _ => proceed cur.next) s := by
  rw [bind_assoc]
  refine bind_congr_of_ok ?_
  rintro ⟨u, scope⟩ s' hrun
  obtain ⟨helement, hcontent⟩ := hkeep s u scope s' hrun
  unfold proceed
  cases hs : s'.response.halted with
  | true =>
    simp only [pure_bind, isHalted_bind, hs, if_true]
    rfl
  | false =>
    simp only [pure_bind, isHalted_bind, hs, helement, hcontent, Bool.false_eq_true, if_false]

theorem continues_attributes {run : δ → AttributeRender ω Unit} {element : Nat}
    (he : p.marker < c.exit.marker) (hm : c.template.HasMarker p (.attributes run element))
    (helement : element < c.template.elements.size) (hs : p.offset ≤ c.template.html.size)
    (hkeep : (run data).Keeps) (h : c.Continues data room p.next frames k) :
    c.Continues data room p frames
      (andThen (unlessHalted (do let _ ← (run data).run {})) k) := by
  obtain ⟨m, hm, hp, ha⟩ := hm
  refine continues_of_marker he hm hp hs ?_
  intro cur cur₀ s hcur ho hr hj hm₀
  rw [andThen_unlessHalted hr, ← follow_proceed h hcur.next ho hj
    (hm₀ ▸ Nat.lt_succ_self p.marker) (hm₀ ▸ he)]
  have hact : c.act data cur m s =
      ((do let _ ← (run data).run {}) >>= fun _ => proceed cur.next) s := by
    have he : c.template.element element =
        (pure c.template.elements[element] : Render ω Element) := by
      simp [Template.element, helement]
    simp only [act, ha, he, pure_bind]
    exact runAttributes_of_keeps hkeep s
  exact bind_eq_of_eq hact

/-- The end of a wrapper that has been opened in this walk. -/
theorem continues_wrapperEnd {opening : Nat} {endings : List (Ending ω)}
    (he : p.marker < c.exit.marker) (hm : c.template.HasMarker p (.wrapperEnd opening))
    (hopening : c.entry.marker ≤ opening) (hs : p.offset ≤ c.template.html.size)
    (h : c.Continues data (room + 1) p.next frames k) :
    c.Continues data room p (frames ++ [endings]) (andThen (runEndings endings) k) := by
  obtain ⟨m, hm, hp, ha⟩ := hm
  refine continues_of_marker he hm hp hs ?_
  intro cur cur₀ s hcur ho hr hj hm₀
  obtain ⟨cur', hcur', ho', hclose⟩ := hcur.closed
  simp only [act, ha, hopening, if_true]
  rw [hclose]
  exact follow_proceed h hcur' (ho'.trans ho) hj (hm₀ ▸ Nat.lt_succ_self _) (hm₀ ▸ he)

/-- The end of a wrapper that has been handed over. -/
theorem continues_wrapperEnd_before {opening : Nat} (he : p.marker < c.exit.marker)
    (hm : c.template.HasMarker p (.wrapperEnd opening)) (hopening : opening < c.entry.marker)
    (hs : p.offset ≤ c.template.html.size) (h : c.Continues data room p.next frames k) :
    c.Continues data room p frames k := by
  obtain ⟨m, hm, hp, ha⟩ := hm
  refine continues_of_marker he hm hp hs ?_
  intro cur cur₀ s hcur ho hr hj hm₀
  simp only [act, ha, Nat.not_le_of_lt hopening, if_false, pure_bind]
  rw [follow_goto hj hcur.next.jump (hcur.next.marker ▸ hm₀ ▸ Nat.lt_succ_self _) (hm₀ ▸ he),
    h.here hcur.next ho hr]

/-- A wrapper whose content is dropped ends at once. -/
theorem follow_dropContent {r : Place} {cur cur₀ : Cursor ω} {opening : Nat} {s : Session ω}
    {endings : List (Ending ω)} (he : r.marker < c.exit.marker)
    (hend : c.template.HasMarker r (.wrapperEnd opening))
    (hcur : cur.At p (frames ++ [endings]) room) (hj : cur₀.jump = none)
    (hm₀ : cur₀.marker < r.marker) (h : c.Continues data (room + 1) r.next frames k) :
    (c.dropContent cur (some r.marker) >>= c.follow data cur₀) s =
      andThen (runEndings endings) k s := by
  obtain ⟨n, hn, hp, -⟩ := hend
  have hmarker : c.template.marker r.marker = (pure n : Render ω (Marker ω δ)) := by
    simp [Template.marker, hn]
  have hcur' :
      { cur with marker := r.marker, offset := r.offset }.At r (frames ++ [endings]) room :=
    ⟨rfl, Nat.le_refl _, hcur.depth, hcur.jump, hcur.stack⟩
  obtain ⟨cur', hclosed, ho, hclose⟩ := hcur'.closed
  simp only [dropContent, hmarker, pure_bind, Nat.not_le_of_lt he, if_false, hp]
  rw [hclose]
  exact follow_proceed h hclosed ho hj (Nat.lt_succ_of_lt hm₀) (Nat.lt_trans hm₀ he)

/-- A wrapper start. What follows depends on what its callback has asked for: either
the content is dropped, or the walk goes on inside of the wrapper. -/
theorem continues_wrapperStart {run : δ → WrapperRender ω Unit} {closing? : Option Nat}
    {k : WrapperScope ω → Render ω (Outcome ω)} (he : p.marker < c.exit.marker)
    (hm : c.template.HasMarker p (.wrapperStart run closing?))
    (hs : p.offset ≤ c.template.html.size)
    (hdrop : ∀ (scope : WrapperScope ω) (cur cur₀ : Cursor ω) (s₀ s : Session ω) (u : Unit),
      (run data).run {} s₀ = .ok ((u, scope), s) → scope.skipContent = true →
      cur.At p (frames ++ [scope.endings]) room → cur₀.jump = none → cur₀.marker = p.marker →
      (c.dropContent cur closing? >>= c.follow data cur₀) s = k scope s)
    (hinside : ∀ scope : WrapperScope ω, scope.skipContent = false →
      c.Continues data room p.next (frames ++ [scope.endings]) (k scope)) :
    c.Continues data (room + 1) p frames (do
      let (_, scope) ← (run data).run {}
      if ← Render.isHalted then return .halted else k scope) := by
  obtain ⟨m, hm, hp, ha⟩ := hm
  refine continues_of_marker he hm hp hs ?_
  intro cur cur₀ s hcur ho hr hj hm₀
  simp only [act, ha, runWrapperStart, hcur.frame_eq, pure_bind]
  rw [bind_assoc]
  refine bind_congr_of_ok ?_
  rintro ⟨u, scope⟩ s' hrun
  -- The frame of the wrapper is filled before anything is decided.
  have hcur' := hcur.opened scope.endings
  cases hs' : s'.response.halted with
  | true =>
    simp only [bind_assoc, isHalted_bind, hs', if_true, pure_bind]
    rfl
  | false =>
    simp only [bind_assoc, isHalted_bind, hs', Bool.false_eq_true, if_false]
    cases hskip : scope.skipContent with
    | true =>
      simp only [if_true]
      exact hdrop scope _ cur₀ s s' u hrun hskip hcur' hj hm₀
    | false =>
      simp only [Bool.false_eq_true, if_false, pure_bind]
      rw [follow_goto hj hcur'.next.jump (hcur'.next.marker ▸ hm₀ ▸ Nat.lt_succ_self _) (hm₀ ▸ he)]
      exact (hinside scope hskip).here hcur'.next ho hs'

/-- A wrapper start, the wrapper's children and its end. The children are left out
if the callback asks for it. -/
theorem continues_wrapper {r : Place} {run : δ → WrapperRender ω Unit} {inside : Render ω Unit}
    (he : r.marker < c.exit.marker) (hpr : p.marker < r.marker) (hle : p.offset ≤ r.offset)
    (hs : r.offset ≤ c.template.html.size) (hopening : c.entry.marker ≤ p.marker)
    (hm : c.template.HasMarker p (.wrapperStart run (some r.marker)))
    (hend : c.template.HasMarker r (.wrapperEnd p.marker)) (hidle : Idle inside)
    (hinside : ∀ endings k', c.Continues data room r (frames ++ [endings]) k' →
      c.Continues data room p.next (frames ++ [endings]) (andThen inside k'))
    (h : c.Continues data (room + 1) r.next frames k) :
    c.Continues data (room + 1) p frames
      (andThen (unlessHalted (Outline.evalWrapper (run data) inside)) k) := by
  refine (continues_wrapperStart (k := fun scope => andThen (Outline.evalScope scope inside) k)
    (Nat.lt_trans hpr he) hm (Nat.le_trans hle hs) ?_ ?_).congr ?_
  · intro scope cur cur₀ s₀ s u _ hskip hcur hj hm₀
    simp only [Outline.evalScope, hskip, if_true]
    exact follow_dropContent he hend hcur hj (hm₀ ▸ hpr) h
  · intro scope hskip
    simp only [Outline.evalScope, hskip, Bool.false_eq_true, if_false]
    rw [andThen_seq (idle_runEndings _)]
    exact hinside _ _ (continues_wrapperEnd he hend hopening hs h)
  · intro s hr
    rw [andThen_unlessHalted hr]
    unfold andThen Outline.evalWrapper
    rw [bind_assoc]
    refine bind_congr_of_ok ?_
    rintro ⟨u, scope⟩ s' hrun
    show _ = andThen (Outline.evalScope scope inside) k s'
    cases hs' : s'.response.halted with
    | true =>
      rw [andThen_of_halted ((Outline.idle_evalScope scope hidle).run_unit hs') hs']
      simp [hs']
    | false =>
      simp only [isHalted_bind, hs', Bool.false_eq_true, if_false]
      rfl

/-- Literal bytes that stand at the place are a text in front. -/
theorem continues_text {html : String}
    (hhtml : c.template.html.extract p.offset (p.offset + html.toUTF8.size) = html.toUTF8)
    (h : c.Continues data room (p.skip html.toUTF8.size) frames k) :
    c.Continues data room p frames (do Render.writeRaw html; k) := by
  intro cur s hcur hs
  have hle : p.offset ≤ (p.skip html.toUTF8.size).offset := Nat.le_add_right _ _
  rw [h cur s (hcur.of_le rfl hle) hs, ← c.template.wrote_wrote hcur.offset hle]
  -- The bytes between the two places are the text.
  have hwrote : ∀ s : Session ω, c.template.wrote p.offset (p.skip html.toUTF8.size).offset s =
      { s with response := s.response.writeRaw html } := by
    intro s
    simp only [Template.wrote, Place.skip, hhtml]
    rfl
  rw [hwrote]
  rfl

/-! ## 4. Outlines -/

open Outline

/-- A walk over a laid out outline evaluates it. -/
theorem continues_eval {content? : Option Place} {o : Outline ω δ}
    (hl : LaidOut c.template content? room o p q)
    (hkeep : o.Forall (fun run => (run data).Keeps) fun _ => True)
    (hentry : c.entry.marker ≤ p.marker) (hexit : q.marker ≤ c.exit.marker)
    (h : c.Continues data room q frames k) :
    c.Continues data room p frames (andThen (o.eval data) k) := by
  -- What follows is put behind the nodes one by one, from the last one on.
  induction hl generalizing frames k with
  | stop _ => exact h.congr fun s hs => (andThen_pure hs).symm
  | @text _ html _ _ _ hhtml hrest ih =>
    refine (continues_text hhtml (ih hkeep hentry hexit h)).congr ?_
    intro s hs
    rw [Outline.eval, andThen_seq (idle_eval data _)]
    have hw : Render.writeRaw html s =
        .ok ((), { s with response := s.response.writeRaw html }) := rfl
    rw [andThen_of_running hw (by simpa [Response.writeRaw] using hs), bind_of_ok hw]
  | content _ hrest ih => exact ih hkeep hentry hexit h
  | plain hm hrest ih =>
    have hle := hrest.le
    rw [Outline.eval, andThen_seq (idle_eval data _)]
    exact continues_plain (Nat.lt_of_lt_of_le hle.1 hexit) hm (Nat.le_trans hle.2.1 hle.2.2)
      (ih hkeep (Nat.le_succ_of_le hentry) hexit h)
  | attributes hm helement hrest ih =>
    have hle := hrest.le
    rw [Outline.eval, andThen_seq (idle_eval data _)]
    exact continues_attributes (Nat.lt_of_lt_of_le hle.1 hexit) hm helement
      (Nat.le_trans hle.2.1 hle.2.2) hkeep.1 (ih hkeep.2 (Nat.le_succ_of_le hentry) hexit h)
  | wrapper hm hinside hend hrest ihi ih =>
    have hle := hinside.le
    have hle' := hrest.le
    rw [Outline.eval, andThen_seq (idle_eval data _)]
    refine continues_wrapper (Nat.lt_of_lt_of_le hle'.1 hexit) hle.1 hle.2.1 hle.2.2 hentry hm hend
      (idle_eval data _) ?_ (ih hkeep.2.2 ?_ hexit h)
    · intro endings k' hk'
      exact ihi hkeep.2.1 (Nat.le_succ_of_le hentry)
        (Nat.le_trans (Nat.le_of_succ_le hle'.1) hexit) hk'
    · exact Nat.le_trans hentry (Nat.le_of_succ_le (Nat.le_succ_of_le hle.1))
  | folded hinside hrest ihi ih =>
    rw [Outline.eval, andThen_seq (idle_eval data _)]
    exact ihi hkeep.1 hentry (Nat.le_trans hrest.le.1 hexit)
      (ih hkeep.2 (Nat.le_trans hentry hinside.le.1) hexit h)

/-! ## 5. Runs -/

/-- At the end of a component no wrapper is open. -/
theorem continues_exit (hs : c.exit.offset ≤ c.template.html.size) :
    c.Continues data room c.exit [] (pure (.finished [])) := by
  intro cur s hcur hr
  have hover : c.handOver { cur with offset := c.exit.offset } = pure ([], cur.stack) := by
    unfold handOver
    exact if_pos hcur.depth
  exact outcome_of_exit hcur.jump (Nat.le_of_eq hcur.marker.symm) hcur.offset hs hr hover

theorem run_of_halted (c : Component ω δ) (data : δ) (place : Place) {s : Session ω}
    (hs : s.response.halted = true) : c.run data place s = .ok (.halted, s) := by
  unfold run
  simp [hs]

theorem run_of_continues (h : c.Continues data c.maxNesting p [] k) {s : Session ω}
    (hs : s.response.halted = false) : c.run data p s = k s := by
  have hcur : (c.cursorAt p (EndingStack.ofDepth c.maxNesting)).At p [] c.maxNesting :=
    ⟨rfl, Nat.le_refl _, rfl, rfl, c.maxNesting, Nat.le_refl _, rfl⟩
  rw [← h.here hcur rfl hs]
  unfold run
  simp only [isHalted_bind, hs, Bool.false_eq_true, if_false]
  rfl

end Component

/-- The outcome of an evaluation does not matter if nothing is done with it. -/
theorem andThen_finished (x : Render ω Unit) {f : Outcome ω → Render ω Unit}
    (hh : f .halted = pure ()) (hf : f (.finished []) = pure ()) :
    (andThen x (pure (.finished [])) >>= f) = x := by
  funext s
  unfold andThen
  calc _ = (x >>= fun _ => pure ()) s := by
        rw [bind_assoc]
        refine bind_congr_of_ok ?_
        intro _ s' _
        cases hs : s'.response.halted <;> simp [hs, hh, hf]
    _ = x s := by simp

/-! ## 6. Components -/

/-- The callback of the declaration, if it is run in a start tag, does not ask to drop
the element or its content. -/
def Declaration.KeepsElement (d : Declaration ω δ) : Prop :=
  ∀ run, d.callback = some (.attributes run) → ∀ data, (run data).Keeps

theorem Component.render_of_laidOut {c : Component ω δ} {content? : Option Place}
    {o : Outline ω δ} {data : δ}
    (hl : Outline.LaidOut c.template content? c.maxNesting o c.entry c.exit)
    (hkeep : o.Forall (fun run => (run data).Keeps) fun _ => True) :
    c.render data = o.eval data := by
  funext s
  cases hs : s.response.halted with
  | true =>
    unfold Component.render
    rw [bind_of_ok (Component.run_of_halted _ data _ hs), (Outline.idle_eval data o).run_unit hs]
    rfl
  | false =>
    have hcontinues := Component.continues_eval hl hkeep (Nat.le_refl _) (Nat.le_refl _)
      (Component.continues_exit hl.le.2.2)
    unfold Component.render
    rw [bind_eq_of_eq (Component.run_of_continues hcontinues hs)]
    exact congrFun (andThen_finished (o.eval data) rfl rfl) s

/-- A component is rendered as the outline of its source is evaluated. -/
theorem Component.render_of_ofSource? {source : String} {declarations : List (Declaration ω δ)}
    {c : Component ω δ} {o : Outline ω δ} (h : Component.compile source declarations = .ok c)
    (hkeep : ∀ d ∈ declarations, d.KeepsElement)
    (ho : Outline.ofSource? source declarations = some o) (data : δ) :
    c.render data = o.eval data := by
  obtain ⟨o', ho', hl⟩ := Component.laidOut_of_compile h
  obtain rfl : o = o' := Option.some.inj (ho.symm.trans ho')
  have hall : o.Forall (fun run => (run data).Keeps) fun _ => True :=
    Outline.forall_of_ofSource? (fun d hd => ⟨fun run hr => hkeep d hd run hr data,
      fun _ _ => trivial⟩) ho
  exact Component.render_of_laidOut hl hall

/-- A component is rendered as its outline is evaluated: with the same callbacks and
endings in the same order, and with the same response. -/
theorem Component.render_eq_eval {source : String} {declarations : List (Declaration ω δ)}
    {c : Component ω δ} (h : Component.compile source declarations = .ok c)
    (hkeep : ∀ d ∈ declarations, d.KeepsElement) :
    ∃ o, Outline.ofSource? source declarations = some o ∧
      ∀ data, c.render data = o.eval data := by
  obtain ⟨o, ho, -⟩ := Component.laidOut_of_compile h
  exact ⟨o, ho, Component.render_of_ofSource? h hkeep ho⟩

/-- The source `<li ${item}>${{frame}${text}}}</li>`. -/
def framedItemSource : String := "<li $\x7bitem\x7d>$\x7b\x7bframe\x7d$\x7btext\x7d\x7d\x7d</li>"

/-- Its declarations: an item with an attribute and a text in a frame. -/
def framedItem : List (Declaration Unit String) :=
  [.attributes "item" fun _ => AttributeRender.addFlag "hidden",
   .wrapper "frame" fun _ => WrapperRender.addEnding (Render.writeRaw "<hr>"),
   .plain "text" fun text => Render.write text]

theorem Component.render_eq_eval_of_framedItem :
    ∃ c o, Component.compile framedItemSource framedItem = .ok c ∧
      Outline.ofSource? framedItemSource framedItem = some o ∧
      ∀ data, c.render data = o.eval data := by
  have hkeep : ∀ d ∈ framedItem, d.KeepsElement := by
    intro d hmem run hrun data s u scope s' h
    simp only [framedItem, List.mem_cons, List.not_mem_nil, or_false] at hmem
    rcases hmem with rfl | rfl | rfl
    · cases hrun
      cases h
      exact ⟨rfl, rfl⟩
    · cases hrun
    · cases hrun
  obtain ⟨c, hc⟩ := exists_eq_ok
    (x := Component.compile framedItemSource framedItem) (by decide +kernel)
  obtain ⟨o, ho, heval⟩ := Component.render_eq_eval hc hkeep
  exact ⟨c, o, hc, ho, heval⟩

end HtmlTemplate
