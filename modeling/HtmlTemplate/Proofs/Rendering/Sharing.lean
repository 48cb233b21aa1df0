import HtmlTemplate.Proofs.Rendering.Fields
import HtmlTemplate.Proofs.Rendering.Transitions

/-!
# Walks on the fields

A walk on the fields does what the walk does whose callbacks have scopes of their own. Between
two steps the fields are empty: what a callback leaves in them is taken before the walk goes
on. Only a callback that halts the response may leave something, and then the walk is over.

Results:
1. `besideFields_bind`, `runEndings_map`: computations that do not reach the fields.
2. `FieldRender.Follows`: a computation on the fields does what another one does. Rules for
   sequences (`follows_bind`, `follows_left`) and for callbacks (`follows_onFields`).
3. `Component.follows_step`, `Component.follows_loop`: the steps of a walk.
4. `Component.follows_run`: a run leaves the fields as they were, on every outcome.
-/

namespace HtmlTemplate

open Render

variable {ω δ α β α' β' : Type} {code : EndingCode ω} {calls : MarkerCode ω δ}

/-! ## 1. Computations that do not reach the fields -/

theorem besideFields_bind (x : Render ω α) (f : α → Render ω β) :
    (x >>= f).besideFields = x.besideFields >>= fun a => (f a).besideFields := by
  funext s
  show Except.map _ ((x >>= f) s.bare) = _
  cases hx : x s.bare with
  | error e =>
    have hx' : x.besideFields s = .error e := congrArg (Except.map _) hx
    rw [bind_of_error hx, bind_of_error hx']
    rfl
  | ok p =>
    have hx' : x.besideFields s = .ok (p.1, p.2.within s.world.fields) :=
      congrArg (Except.map _) hx
    rw [bind_of_ok hx, bind_of_ok hx']
    rfl

theorem besideFields_unlessHalted (x : Render ω Unit) :
    (unlessHalted x).besideFields = unlessHalted x.besideFields := by
  refine (besideFields_bind Render.isHalted _).trans ?_
  refine congrArg (Bind.bind Render.isHalted) (funext fun halted => ?_)
  cases halted <;> rfl

/-- On the fields, the ending runs as it is known. -/
def EndingCode.Fits (code : EndingCode ω) (ending : Ending ω) : Prop :=
  code ending = ending.besideFields

theorem runEndings_map {endings : List (Ending ω)} (h : ∀ ending ∈ endings, code.Fits ending) :
    runEndings (endings.map code) = (runEndings endings).besideFields := by
  induction endings with
  | nil => rfl
  | cons ending rest ih =>
    have hfirst : code ending = ending.besideFields := h ending List.mem_cons_self
    rw [List.map_cons, runEndings_cons, runEndings_cons, besideFields_unlessHalted,
      besideFields_bind, hfirst, ih fun e he => h e (List.mem_cons_of_mem _ he)]

namespace ScopePart

variable {σ : Type} (part : ScopePart ω σ)

/-- What uses the scope not at all does not reach the fields. -/
theorem onFields_lift (x : Render ω α) : part.onFields (StateT.lift x) = x.besideFields := by
  funext s
  show Except.map _ ((x >>= fun a => pure (a, part.get s.world.fields)) s.bare) =
    Except.map _ (x s.bare)
  cases hx : x s.bare with
  | error e =>
    rw [bind_of_error hx]
    rfl
  | ok p =>
    rw [bind_of_ok hx]
    exact congrArg (fun fields => Except.ok (p.1, p.2.within fields)) (part.put_get _)

theorem onFields_bind (x : StateT σ (Render ω) α) (f : α → StateT σ (Render ω) β) :
    part.onFields (x >>= f) = part.onFields x >>= fun a => part.onFields (f a) := by
  funext s
  show Except.map _ ((x.run (part.get s.world.fields) >>= fun p => (f p.1).run p.2) s.bare) = _
  cases hx : x.run (part.get s.world.fields) s.bare with
  | error e =>
    have hx' : part.onFields x s = .error e := congrArg (Except.map _) hx
    rw [bind_of_error hx, bind_of_error hx']
    rfl
  | ok p =>
    obtain ⟨⟨a, scope⟩, s'⟩ := p
    have hx' : part.onFields x s = .ok (a, s'.within (part.put s.world.fields scope)) :=
      congrArg (Except.map _) hx
    rw [bind_of_ok hx, bind_of_ok hx']
    show _ = Except.map _ ((f a).run (part.get (part.put s.world.fields scope)) s')
    rw [part.get_put]
    refine congrFun (congrArg Except.map (funext fun p => ?_)) _
    exact congrArg (fun fields => (p.1.1, p.2.within fields)) (part.put_put _ _ _).symm

theorem onFields_pure (a : α) : part.onFields (pure a : StateT σ (Render ω) α) = pure a :=
  funext fun s => congrArg (fun fields => Except.ok (a, s.bare.within fields)) (part.put_get _)

/-- A change of the scope is a change of the fields. -/
theorem onFields_modify {f : σ → σ} {g : Fields ω → Fields ω}
    (h : ∀ fields, part.put fields (f (part.get fields)) = g fields) :
    part.onFields (modify f : StateT σ (Render ω) Unit) = FieldRender.modifyFields g :=
  funext fun s => congrArg (fun fields => Except.ok ((), s.bare.within fields)) (h _)

end ScopePart

/-! ## 2. Computations that do the same -/

/-- With these fields the first computation does what the second one does. What it returns,
and the fields that it leaves, are in the relation `post` to what the second one returns. -/
structure FieldRender.Follows (fields : Fields ω) (x' : FieldRender ω α') (x : Render ω α)
    (post : α' → α → Fields ω → Prop) : Prop where
  fault : ∀ s f, x s = .error f → x' (s.within fields) = .error f
  result : ∀ s a s', x s = .ok (a, s') →
    ∃ a' fields', post a' a fields' ∧ x' (s.within fields) = .ok (a', s'.within fields')

namespace FieldRender

section Follows

variable {fields fields₁ : Fields ω} {x' : FieldRender ω α'} {x : Render ω α}
  {post : α' → α → Fields ω → Prop}

theorem follows_pure {a' : α'} {a : α} (h : post a' a fields) :
    Follows fields (pure a') (pure a) post where
  fault _ _ hx := by cases hx
  result _ _ _ hx := by cases hx; exact ⟨a', fields, h, rfl⟩

theorem follows_throw (f : Fault) :
    Follows fields (throw f : FieldRender ω α') (throw f : Render ω α) post where
  fault _ _ hx := by cases hx; rfl
  result _ _ _ hx := by cases hx

/-- A computation that does not reach the fields leaves them as they are. What is known of
whatever it returns may be used. -/
theorem follows_besideFields {p : α → Prop} (h : ∀ s a s', x s = .ok (a, s') → p a) :
    Follows fields x.besideFields x fun a' a fields' => a' = a ∧ p a ∧ fields' = fields where
  fault _ _ hx := congrArg (Except.map _) hx
  result s a s' hx := ⟨a, fields, ⟨rfl, h s a s' hx, rfl⟩, congrArg (Except.map _) hx⟩

theorem follows_bind {f' : α' → FieldRender ω β'} {f : α → Render ω β}
    {last : β' → β → Fields ω → Prop} (hx : Follows fields x' x post)
    (hf : ∀ a' a fields', post a' a fields' → Follows fields' (f' a') (f a) last) :
    Follows fields (x' >>= f') (x >>= f) last := by
  constructor
  · intro s e hr
    cases h : x s with
    | error e' =>
      rw [bind_of_error h] at hr
      cases hr
      exact bind_of_error (hx.fault s e h)
    | ok p =>
      obtain ⟨a', fields', hpost, hx'⟩ := hx.result s p.1 p.2 h
      rw [bind_of_ok h] at hr
      rw [bind_of_ok hx']
      exact (hf a' p.1 fields' hpost).fault p.2 e hr
  · intro s b s' hr
    obtain ⟨a, s₁, ha, hb⟩ := ok_of_bind hr
    obtain ⟨a', fields', hpost, hx'⟩ := hx.result s a s₁ ha
    rw [bind_of_ok hx']
    exact (hf a' a fields' hpost).result s₁ b s' hb

/-- Both computations begin with one that does not reach the fields. What is known of whatever
it returns may be used. -/
theorem follows_both {p : β → Prop} {y : Render ω β} {f' : β → FieldRender ω α'}
    {f : β → Render ω α} (hy : ∀ s b s', y s = .ok (b, s') → p b)
    (hf : ∀ b, p b → Follows fields (f' b) (f b) post) :
    Follows fields (y.besideFields >>= f') (y >>= f) post := by
  refine follows_bind (follows_besideFields hy) ?_
  rintro b' b _ ⟨rfl, hb, rfl⟩
  exact hf b' hb

/-- The same, if nothing need be known. -/
theorem follows_pass {y : Render ω β} {f' : β → FieldRender ω α'} {f : β → Render ω α}
    (hf : ∀ b, Follows fields (f' b) (f b) post) :
    Follows fields (y.besideFields >>= f') (y >>= f) post :=
  follows_both (p := fun _ => True) (fun _ _ _ _ => trivial) fun b _ => hf b

/-- Something is done to the fields only. -/
theorem follows_left {y : FieldRender ω β'} {b : β'} {f' : β' → FieldRender ω α'}
    (hy : ∀ s : Session ω, y (s.within fields) = .ok (b, s.within fields₁))
    (h : Follows fields₁ (f' b) x post) : Follows fields (y >>= f') x post where
  fault s f hx := (bind_of_ok (hy s)).trans (h.fault s f hx)
  result s a s' hx := by
    rw [bind_of_ok (hy s)]
    exact h.result s a s' hx

/-- What is known of whatever the second computation returns may be used. -/
theorem Follows.and_result {p : α → Prop} (h : Follows fields x' x post)
    (hp : ∀ s a s', x s = .ok (a, s') → p a) :
    Follows fields x' x fun a' a fields' => post a' a fields' ∧ p a where
  fault := h.fault
  result s a s' hx :=
    have ⟨a', fields', hpost, hx'⟩ := h.result s a s' hx
    ⟨a', fields', ⟨hpost, hp s a s' hx⟩, hx'⟩

theorem Follows.imp {post' : α' → α → Fields ω → Prop} (h : Follows fields x' x post)
    (himp : ∀ a' a fields', post a' a fields' → post' a' a fields') :
    Follows fields x' x post' where
  fault := h.fault
  result s a s' hx :=
    have ⟨a', fields', hpost, hx'⟩ := h.result s a s' hx
    ⟨a', fields', himp a' a fields' hpost, hx'⟩

theorem modifyFields_run (f : Fields ω → Fields ω) (fields : Fields ω) (s : Session ω) :
    modifyFields f (s.within fields) = .ok ((), s.within (f fields)) := rfl

theorem takeFields_run (fields : Fields ω) (s : Session ω) :
    takeFields (s.within fields) = .ok (fields, s.within {}) := rfl

theorem takeFrame_run (fields : Fields ω) (s : Session ω) :
    takeFrame (s.within fields) = .ok (fields.frame, s.within { fields with frame := [] }) := rfl

theorem takeSkipContent_run (fields : Fields ω) (s : Session ω) :
    takeSkipContent (s.within fields) =
      .ok (fields.skipContent, s.within { fields with skipContent := false }) := rfl

theorem takeSkipElement_run (fields : Fields ω) (s : Session ω) :
    takeSkipElement (s.within fields) =
      .ok (fields.skipElement, s.within { fields with skipElement := false }) := rfl

/-- A callback finds its scope in the fields, and leaves it there. -/
theorem follows_onFields {σ : Type} (part : ScopePart ω σ) (run : StateT σ (Render ω) α) :
    Follows fields (part.onFields run) (run.run (part.get fields))
      fun a' p fields' => a' = p.1 ∧ fields' = part.put fields p.2 where
  fault _ _ hx := congrArg (Except.map _) hx
  result _ p _ hx := ⟨p.1, _, ⟨rfl, rfl⟩, congrArg (Except.map _) hx⟩

theorem follows_attributes (run : AttributeRender ω α) :
    Follows {} run.onFields (run.run {}) fun a' p fields' => a' = p.1 ∧
      fields' = { skipContent := p.2.skipContent, skipElement := p.2.skipElement } :=
  follows_onFields AttributeScope.part run

theorem follows_wrapper (run : WrapperRender ω α) (frame : List (Ending ω)) :
    Follows { frame := frame.reverse } run.onFields (run.run { endings := frame })
      fun a' p fields' => a' = p.1 ∧
        fields' = { frame := p.2.endings.reverse, skipContent := p.2.skipContent } := by
  have h : Follows { frame := frame.reverse } run.onFields
      (run.run { endings := frame.reverse.reverse }) _ := follows_onFields WrapperScope.part run
  rwa [List.reverse_reverse] at h

end Follows

end FieldRender

/-! ## 3. Steps -/

/-- The callback of a wrapper start runs on the fields as with a scope of its own, and
registers endings that run as they are known. -/
structure WrapperRender.Fits (code : EndingCode ω) (x : WrapperRender ω α) (x' : FieldRender ω α) :
    Prop where
  eq_onFields : x' = x.onFields
  endings : ∀ scope s a scope' s', (∀ ending ∈ scope.endings, code.Fits ending) →
    x.run scope s = .ok ((a, scope'), s') → ∀ ending ∈ scope'.endings, code.Fits ending

/-- On the fields, a computation does what the callback does with a scope of its own. -/
def Callback.Fits (code : EndingCode ω) (data : δ) (call : FieldRender ω Unit) :
    Callback ω δ → Prop
  | .plain run => call = (run data).besideFields
  | .wrapper run => (run data).Fits code call
  | .attributes run => call = (run data).onFields

/-- What runs on the fields at the markers of the template is what their callbacks do. -/
def Template.Fits (code : EndingCode ω) (t : Template ω δ) (calls : MarkerCode ω δ) (data : δ) :
    Prop :=
  ∀ (index : Nat) (m : Marker ω δ) (callback : Callback ω δ), t.markers[index]? = some m →
    m.action.callback? = some callback → callback.Fits code data (calls index data)

/-- The endings that are still to be run have the property. -/
def Next.Each (p : Ending ω → Prop) : Next ω → Prop
  | .goto cur => cur.stack.Each p
  | .stop outcome _ => ∀ ending ∈ outcome.carried, p ending

theorem Next.each_halted {p : Ending ω → Prop} (stack : EndingStack (Ending ω)) :
    (Next.stop .halted stack).Each p := fun _ hmem => by cases hmem

/-- The same follows, its endings run on the fields as they are known, and the fields are
empty if the walk goes on. -/
def Next.Kept (code : EndingCode ω) (next' next : Next ω) (fields : Fields ω) : Prop :=
  next' = next ∧ next.Each code.Fits ∧ ∀ cur, next = .goto cur → fields = {}

namespace Component

open FieldRender

variable {c : Component ω δ} {data : δ} {cur cur' : Cursor ω} {p : Ending ω → Prop}
  {s s' : Session ω} {next : Next ω}

theorem each_proceed (h : cur.stack.Each p) (hx : proceed cur s = .ok (next, s')) :
    next.Each p := by
  rw [proceed_run] at hx
  cases hx
  unfold settled
  split
  · exact Next.each_halted _
  · exact h

theorem each_swallowed (h : cur.stack.Each p) (resume : Place) : (swallowed cur resume).Each p :=
  h.openEndings cur.depth

theorem each_swallow (h : cur.stack.Each p) {resume : Place}
    (hx : c.swallow cur resume s = .ok (next, s')) : next.Each p := by
  obtain ⟨-, rfl, -⟩ := swallow_eq_ok hx
  exact each_swallowed h resume

theorem each_finish (h : cur.stack.Each p) (hx : c.finish cur s = .ok (next, s')) :
    next.Each p := by
  obtain ⟨cur₁, s₁, hadvance, hx⟩ := ok_of_bind hx
  obtain ⟨rfl, -⟩ := Template.advance_eq_ok hadvance
  rw [isHalted_bind] at hx
  split at hx
  · cases hx
    exact Next.each_halted _
  · obtain ⟨q, s₂, hover, hx⟩ := ok_of_bind hx
    obtain ⟨-, rfl, -⟩ := handOver_eq_ok hover
    cases hx
    exact h.openEndings cur.depth

theorem each_takeJump (h : cur.stack.Each p) {jump : Jump}
    (hx : c.takeJump cur jump s = .ok (next, s')) : next.Each p := by
  obtain ⟨cur₁, s₁, hadvance, hx⟩ := ok_of_bind hx
  obtain ⟨rfl, -⟩ := Template.advance_eq_ok hadvance
  split at hx
  · exact each_swallow h hx
  · cases hx
    exact h

theorem each_dropElement (h : cur.stack.Each p) {e : Element}
    (hx : c.dropElement cur e s = .ok (next, s')) : next.Each p := by
  obtain ⟨-, ⟨-, rfl⟩ | ⟨-, -, rfl⟩⟩ := dropElement_eq_ok hx
  · exact h
  · exact each_swallowed h _

/-- What a walk does without callbacks and endings does not reach the fields. -/
theorem follows_apart {x : Render ω (Next ω)}
    (h : ∀ s next s', x s = .ok (next, s') → next.Each code.Fits) :
    Follows {} x.besideFields x (Next.Kept code) :=
  (follows_besideFields h).imp fun _ _ _ ⟨heq, heach, hfields⟩ => ⟨heq, heach, fun _ _ => hfields⟩

theorem follows_goto (h : cur.stack.Each code.Fits) :
    Follows {} (pure (.goto cur)) (pure (.goto cur)) (Next.Kept code) :=
  follows_pure ⟨rfl, h, fun _ _ => rfl⟩

/-- Either the response is halted and the walk is over, or it goes on. -/
theorem follows_unlessHalted {fields : Fields ω} {stack : EndingStack (Ending ω)}
    {x' : FieldRender ω (Next ω)} {x : Render ω (Next ω)}
    (h : Follows fields x' x (Next.Kept code)) :
    Follows fields (do if ← Render.isHalted then return .stop .halted stack else x')
      (do if ← Render.isHalted then return .stop .halted stack else x) (Next.Kept code) := by
  refine follows_pass (y := Render.isHalted) fun halted => ?_
  cases halted with
  | true => exact follows_pure ⟨rfl, Next.each_halted _, fun _ hnext => by cases hnext⟩
  | false => exact h

/-- A frame is taken off the stack, with endings that have the property. -/
theorem follows_frame (h : cur.stack.Each p) (depth : Nat) {fields : Fields ω}
    {f' : List (Ending ω) → FieldRender ω α'} {f : List (Ending ω) → Render ω α}
    {post : α' → α → Fields ω → Prop}
    (hf : ∀ frame, (∀ ending ∈ frame, p ending) → Follows fields (f' frame) (f frame) post) :
    Follows fields ((cur.frame depth).besideFields >>= f') (cur.frame depth >>= f) post :=
  follows_both (fun _ _ _ hx => h.of_frame (frame_eq_ok.mp hx).1) hf

theorem follows_closeWrapper (h : cur.stack.Each code.Fits) :
    Follows {} (closeWrapperOnFields code cur) (closeWrapper cur) (Next.Kept code) := by
  unfold closeWrapperOnFields closeWrapper
  cases cur.depth with
  | zero => exact follows_throw _
  | succ depth =>
    refine follows_frame h depth fun frame hframe => ?_
    rw [runEndings_map hframe]
    refine follows_pass fun _ => ?_
    exact follows_apart fun _ _ _ => each_proceed (h.setFrame depth fun _ hmem => by cases hmem)

theorem follows_dropContent (h : cur.stack.Each code.Fits) (closing? : Option Nat) :
    Follows {} (c.dropContentOnFields code cur closing?) (c.dropContent cur closing?)
      (Next.Kept code) := by
  unfold dropContentOnFields dropContent
  cases closing? with
  | none => exact follows_throw _
  | some index =>
    refine follows_pass fun m => ?_
    split
    · exact follows_apart fun _ _ _ => each_swallow h
    · exact follows_closeWrapper h

theorem follows_runPlain (h : cur.stack.Each code.Fits) {run : Render ω Unit}
    (hrun : calls cur.marker data = run.besideFields) :
    Follows {} (runPlainOnFields calls data cur) (runPlain cur run) (Next.Kept code) := by
  unfold runPlainOnFields runPlain
  rw [hrun]
  exact follows_pass fun _ => follows_apart fun _ _ _ => each_proceed h

/-- The flags that the callback leaves are taken. -/
theorem follows_runAttributes (h : cur.stack.Each code.Fits) {run : AttributeRender ω Unit}
    (hrun : calls cur.marker data = run.onFields) (e : Element) :
    Follows {} (c.runAttributesOnFields calls data cur e) (c.runAttributes cur run e)
      (Next.Kept code) := by
  unfold runAttributesOnFields runAttributes
  rw [hrun]
  refine follows_bind (follows_attributes run) ?_
  rintro ⟨⟩ ⟨⟨⟩, scope⟩ _ ⟨-, rfl⟩
  refine follows_unlessHalted ?_
  refine follows_left (takeSkipContent_run _) ?_
  refine follows_left (takeSkipElement_run _) ?_
  simp only
  split
  · exact follows_apart fun _ _ _ => each_dropElement h
  · split
    · refine follows_goto ?_
      unfold planJump
      split <;> exact h
    · exact follows_goto h

/-- The frame and the flag that the callback leaves are taken. -/
theorem follows_runWrapperStart (h : cur.stack.Each code.Fits) {run : WrapperRender ω Unit}
    (hrun : run.Fits code (calls cur.marker data)) (closing? : Option Nat) :
    Follows {} (c.runWrapperStartOnFields code calls data cur closing?)
      (c.runWrapperStart cur run closing?) (Next.Kept code) := by
  unfold runWrapperStartOnFields runWrapperStart
  refine follows_frame h cur.depth fun frame hframe => ?_
  refine follows_left (modifyFields_run _ _) ?_
  rw [hrun.eq_onFields]
  have hknown : ∀ s p s', run.run { endings := frame } s = .ok (p, s') →
      ∀ ending ∈ p.2.endings, code.Fits ending :=
    fun s p s' hx => hrun.endings _ s p.1 p.2 s' hframe hx
  refine follows_bind ((follows_wrapper run frame).and_result hknown) ?_
  rintro ⟨⟩ ⟨⟨⟩, scope⟩ _ ⟨⟨-, rfl⟩, hscope⟩
  refine follows_left (takeFrame_run _) ?_
  simp only [List.reverse_reverse]
  have hentered := h.setFrame cur.depth hscope
  refine follows_unlessHalted ?_
  refine follows_left (takeSkipContent_run _) ?_
  simp only
  split
  · exact follows_dropContent hentered closing?
  · exact follows_goto hentered

/-- At a marker, what runs on the fields is what its callback does. -/
theorem follows_act (ht : c.template.Fits code calls data) (h : cur.stack.Each code.Fits)
    {m : Marker ω δ} (hm : c.template.markers[cur.marker]? = some m) :
    Follows {} (c.actOnFields code calls data cur m) (c.act data cur m) (Next.Kept code) := by
  have hfits := fun callback => ht cur.marker m callback hm
  unfold actOnFields act
  cases ha : m.action with
  | plain run => exact follows_runPlain h (hfits (.plain run) (by rw [ha]; rfl))
  | attributes run index =>
    exact follows_pass fun e =>
      follows_runAttributes h (hfits (.attributes run) (by rw [ha]; rfl)) e
  | wrapperStart run closing? =>
    exact follows_runWrapperStart h (hfits (.wrapper run) (by rw [ha]; rfl)) closing?
  | wrapperEnd opening =>
    simp only
    split
    · exact follows_closeWrapper h
    · exact follows_goto h

theorem follows_visit (ht : c.template.Fits code calls data) (h : cur.stack.Each code.Fits) :
    Follows {} (c.visitOnFields code calls data cur) (c.visit data cur) (Next.Kept code) := by
  unfold visitOnFields visit
  split
  · refine follows_both (fun s m s' hx => (marker_eq_ok.mp hx).1) fun m hm => ?_
    have harrives : ∀ s cur₁ s', (c.template.passTags m.position cur.elements cur >>= fun cur =>
        c.template.advance cur m.position) s = .ok (cur₁, s') →
        cur₁.marker = cur.marker ∧ cur₁.stack = cur.stack := by
      intro s cur₁ s' hx
      obtain ⟨-, -, ⟨elements, tagMark, rfl⟩, -⟩ := Template.passTags_eq_wrote hx
      exact ⟨rfl, rfl⟩
    rw [← bind_assoc, ← bind_assoc, ← besideFields_bind]
    refine follows_both harrives fun cur₁ ⟨hmarker, hstack⟩ => ?_
    exact follows_unlessHalted (follows_act ht (hstack ▸ h) (hmarker ▸ hm))
  · exact follows_apart fun _ _ _ => each_finish h

theorem follows_step (ht : c.template.Fits code calls data) (h : cur.stack.Each code.Fits) :
    Follows {} (c.stepOnFields code calls data cur) (c.step data cur) (Next.Kept code) := by
  unfold stepOnFields step
  cases cur.jump with
  | none => exact follows_visit ht h
  | some jump =>
    refine follows_pass fun position => ?_
    split
    · exact follows_apart fun _ _ _ => each_takeJump h
    · exact follows_visit ht h

/-! ## 4. Walks -/

theorem follows_loop (ht : c.template.Fits code calls data) (h : cur.stack.Each code.Fits) :
    Follows {} (c.loopOnFields code calls data cur) (c.loop data cur)
      fun p' p _ => p' = p ∧ ∀ ending ∈ p.1.carried, code.Fits ending := by
  generalize hn : c.remaining cur = n
  induction n using Nat.strongRecOn generalizing cur with
  | ind n ih =>
    rw [loopOnFields, loop]
    refine follows_bind (follows_step ht h) ?_
    rintro next' next fields ⟨rfl, heach, hfields⟩
    cases next' with
    | stop outcome stack => exact follows_pure ⟨rfl, heach⟩
    | goto cur₁ =>
      cases hfields cur₁ rfl
      simp only
      split
      · next hlt => exact ih _ (hn ▸ hlt) heach rfl
      · exact follows_throw _

/-- A run on the fields does what the run does, hands over endings that run as they are known,
and leaves the fields as they were. -/
theorem follows_run (ht : c.template.Fits code calls data) (place : Place) (fields : Fields ω) :
    Follows fields (c.runOnFields code calls data place) (c.run data place)
      fun outcome' outcome fields' =>
        outcome' = outcome ∧ (∀ ending ∈ outcome.carried, code.Fits ending) ∧ fields' = fields := by
  unfold runOnFields run
  refine follows_pass (y := Render.isHalted) fun halted => ?_
  cases halted with
  | true => exact follows_pure ⟨rfl, (fun _ hmem => by cases hmem), rfl⟩
  | false =>
    refine follows_left (takeFields_run _) ?_
    refine follows_bind (follows_loop ht (.ofDepth _)) ?_
    rintro p' p fields' ⟨rfl, heach⟩
    refine follows_left (modifyFields_run _ _) ?_
    exact follows_pure ⟨rfl, heach, rfl⟩

end Component

end HtmlTemplate
