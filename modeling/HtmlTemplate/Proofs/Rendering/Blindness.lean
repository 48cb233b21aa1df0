import HtmlTemplate.Proofs.Rendering.Calls
import HtmlTemplate.Proofs.Rendering.Running
import HtmlTemplate.Proofs.Template.Compiled

/-!
# Computations that do not look at the output

A callback adds to the output. If it does not look at what was written before, then that is
no matter to it: it writes the same to an empty output, and does the same to the status, the
target and the world. Such a computation is `Blind`.

The second of two computations `Matches` the first one if it does behind other output what
the first one does without it. A blind computation matches itself; the steps of a walk do not,
for they keep the size of the output.

Results:
1. `behind_apply`, `behind_truncate`: calls on a response behind other output.
2. `Render.Blind.matches`, `blind_of_matches`: a computation is blind exactly if it matches
   itself.
3. `matches_bind`: the rule for sequences.
4. `blind_respond`, `blind_look`, `blind_addEnding` and others: what callbacks do is blind.
-/

namespace HtmlTemplate

open Render

variable {ω δ α β : Type} {written : ByteArray}

/-! ## 1. Responses -/

theorem Entity.appendRuns_append (table : Entity.Table) (bytes : ByteArray) (run i : Nat)
    (out : ByteArray) : Entity.appendRuns table bytes run i (written ++ out) =
      written ++ Entity.appendRuns table bytes run i out := by
  fun_induction Entity.appendRuns table bytes run i out with
  | case1 run i out hlt entity hentity ih =>
    rw [Entity.appendRuns, dif_pos hlt]
    simp only [hentity]
    rw [← ih, ByteArray.append_assoc, ByteArray.append_assoc, ByteArray.append_assoc]
  | case2 run i out hlt hnone ih =>
    rw [Entity.appendRuns, dif_pos hlt]
    simp only [hnone]
    exact ih
  | case3 run i out hge => rw [Entity.appendRuns, dif_neg hge, ByteArray.append_assoc]

namespace Response

/-- The response with other output in front of its own. -/
def behind (r : Response) (written : ByteArray) : Response :=
  { r with output := written ++ r.output }

@[simp] theorem halted_behind (r : Response) : (r.behind written).halted = r.halted := rfl

theorem size_behind (r : Response) : (r.behind written).size = written.size + r.size :=
  ByteArray.size_append

/-- The response with a longer output, unless it is halted. -/
def extend (r : Response) (f : ByteArray → ByteArray) : Response :=
  if r.halted then r else { r with output := f r.output }

theorem behind_extend (r : Response) {f : ByteArray → ByteArray}
    (hf : ∀ out, f (written ++ out) = written ++ f out) :
    (r.behind written).extend f = (r.extend f).behind written := by
  cases h : r.halted <;> simp [extend, behind, h, hf]

theorem behind_extendEscaped (r : Response) (written : ByteArray) (table : Entity.Table)
    (bytes : ByteArray) : (r.behind written).extend (Entity.appendEscaped table · bytes) =
      (r.extend (Entity.appendEscaped table · bytes)).behind written :=
  r.behind_extend fun out => Entity.appendRuns_append table bytes 0 0 out

@[simp] theorem behind_writeRawBytes (r : Response) (bytes : ByteArray) :
    (r.behind written).writeRawBytes bytes = (r.writeRawBytes bytes).behind written :=
  r.behind_extend (f := (· ++ bytes)) fun _ => ByteArray.append_assoc

@[simp] theorem behind_writeBytes (r : Response) (bytes : ByteArray) :
    (r.behind written).writeBytes bytes = (r.writeBytes bytes).behind written :=
  r.behind_extendEscaped written Entity.html bytes

@[simp] theorem behind_writeKey (r : Response) (key : String) (escaped : Bool) :
    (r.behind written).writeKey key escaped = (r.writeKey key escaped).behind written := by
  simp only [writeKey, writeRaw, write, behind_writeRawBytes, behind_writeBytes]
  split
  · rfl
  · split <;> rfl

theorem behind_addRawAttribute (r : Response) (key value : String) :
    (r.behind written).addRawAttribute key value =
      (r.addRawAttribute key value).behind written := by
  have hvalue := ((r.writeKey key false).writeRaw "=\"").behind_extendEscaped written
    Entity.doubleQuote value.toUTF8
  rw [writeRaw, ← behind_writeRawBytes, ← behind_writeKey] at hvalue
  exact (congrArg (writeRawBytes · "\"".toUTF8) hvalue).trans (behind_writeRawBytes _ _)

/-- What a call writes goes behind the output. -/
theorem behind_apply (r : Response) (written : ByteArray) (call : Call) :
    (r.behind written).apply call = (r.apply call).behind written := by
  cases call with
  | write | writeRaw | writeBytes | writeRawBytes | addAttribute | addFlag =>
    simp [apply, write, writeRaw, addAttribute, addFlag]
  | addRawAttribute key value => exact r.behind_addRawAttribute key value
  | setStatus | halt | redirect | giveUp => rfl

/-- Output is taken back up to the same byte. -/
theorem behind_truncate (r : Response) (written : ByteArray) (size : Nat) :
    (r.behind written).truncate (written.size + size) = (r.truncate size).behind written := by
  have hwritten : written.extract 0 (written.size + size) = written := by
    have h := ByteArray.extract_zero_max_size (a := written) (i := written.size + size)
    rwa [Nat.max_eq_left (Nat.le_add_right _ _)] at h
  simp [truncate, behind, ByteArray.extract_append, hwritten]

end Response

namespace Session

/-- The session with other output in front of what has been written. -/
def behind (s : Session ω) (written : ByteArray) : Session ω :=
  { s with response := s.response.behind written }

/-- The session with nothing written. -/
def emptied (s : Session ω) : Session ω :=
  { s with response := { s.response with output := .empty } }

/-- What has been written may be put in front of an empty output. -/
theorem emptied_behind (s : Session ω) : s.emptied.behind s.response.output = s := by
  simp [emptied, behind, Response.behind]

theorem emptied_of_behind (s : Session ω) : (s.behind written).emptied = s.emptied := rfl

theorem behind_behind (s : Session ω) (first : ByteArray) :
    (s.behind written).behind first = s.behind (first ++ written) := by
  simp [behind, Response.behind, ByteArray.append_assoc]

end Session

/-! ## 2. Computations -/

/-- The computation appends to what has been written before, and does not look at it: it
writes the same to an empty output, and otherwise does and returns the same. -/
def Render.Blind (x : Render ω α) : Prop :=
  ∀ s : Session ω,
    x s = Except.map (fun p => (p.1, p.2.behind s.response.output)) (x s.emptied)

/-- The callback does not look at what was written before, and registers endings that do
not. -/
def WrapperRender.Blind (x : WrapperRender ω α) : Prop :=
  ∀ scope, (∀ ending ∈ scope.endings, Render.Blind ending) →
    Render.Blind (x.run scope) ∧
      ∀ s a scope' s', x.run scope s = .ok ((a, scope'), s') →
        ∀ ending ∈ scope'.endings, Render.Blind ending

/-- The callback does not look at what was written before. -/
def AttributeRender.Blind (x : AttributeRender ω α) : Prop :=
  ∀ scope, Render.Blind (x.run scope)

/-- The second computation does behind other output what the first one does without it. -/
structure Render.Matches (written : ByteArray) (x : Render ω α) (y : Render ω β)
    (rel : α → β → Prop) : Prop where
  fault : ∀ s f, x s = .error f → y (s.behind written) = .error f
  result : ∀ s a s', x s = .ok (a, s') →
    ∃ b, rel a b ∧ y (s.behind written) = .ok (b, s'.behind written)

theorem Render.Blind.behind_eq {x : Render ω α} (h : Blind x) (s : Session ω) :
    x (s.behind written) = Except.map (fun p => (p.1, p.2.behind written)) (x s) := by
  rw [h s, h (s.behind written), s.emptied_of_behind]
  cases x s.emptied with
  | error f => rfl
  | ok p => exact congrArg (fun s' => Except.ok (p.1, s')) (p.2.behind_behind written).symm

theorem Render.Blind.matches {x : Render ω α} (h : Blind x) (written : ByteArray) :
    Matches written x x (· = ·) where
  fault s f hx := by rw [h.behind_eq s, hx]; rfl
  result s a s' hx := ⟨a, rfl, by rw [h.behind_eq s, hx]; rfl⟩

theorem blind_of_matches {x : Render ω α} (h : ∀ written, Matches written x x (· = ·)) :
    Blind x := by
  intro s
  have hs := h s.response.output
  cases hx : x s.emptied with
  | error f =>
    have hy := hs.fault s.emptied f hx
    rwa [s.emptied_behind] at hy
  | ok p =>
    obtain ⟨b, rfl, hy⟩ := hs.result s.emptied p.1 p.2 hx
    rwa [s.emptied_behind] at hy

section Matches

variable {α' β' : Type} {x : Render ω α} {y : Render ω β} {rel rel' : α → β → Prop}

theorem matches_pure {a : α} {b : β} (h : rel a b) :
    Matches written (pure a : Render ω α) (pure b) rel where
  fault s f hx := by cases hx
  result s a' s' hx := by cases hx; exact ⟨b, h, rfl⟩

theorem matches_throw (f : Fault) :
    Matches written (throw f : Render ω α) (throw f : Render ω β) rel where
  fault s f' hx := by cases hx; rfl
  result s a s' hx := by cases hx

theorem matches_bind {f : α → Render ω α'} {g : β → Render ω β'} {last : α' → β' → Prop}
    (hx : Matches written x y rel) (hf : ∀ a b, rel a b → Matches written (f a) (g b) last) :
    Matches written (x >>= f) (y >>= g) last := by
  constructor
  · intro s e hr
    cases h : x s with
    | error e' =>
      rw [bind_of_error h] at hr
      cases hr
      exact bind_of_error (hx.fault s e h)
    | ok p =>
      obtain ⟨b, hrel, hy⟩ := hx.result s p.1 p.2 h
      rw [bind_of_ok h] at hr
      rw [bind_of_ok hy]
      exact (hf p.1 b hrel).fault p.2 e hr
  · intro s a' s' hr
    obtain ⟨a, s₁, ha, hb⟩ := ok_of_bind hr
    obtain ⟨b, hrel, hy⟩ := hx.result s a s₁ ha
    rw [bind_of_ok hy]
    exact (hf a b hrel).result s₁ a' s' hb

/-- Both computations begin with the same blind one. -/
theorem matches_bind_blind {z : Render ω α'} {f : α' → Render ω α} {g : α' → Render ω β}
    (hz : Blind z) (hf : ∀ a, Matches written (f a) (g a) rel) :
    Matches written (z >>= f) (z >>= g) rel :=
  matches_bind (hz.matches written) fun a _ h => h ▸ hf a

theorem Render.Matches.imp {rel' : α → β → Prop} (h : Matches written x y rel)
    (himp : ∀ a b, rel a b → rel' a b) : Matches written x y rel' where
  fault := h.fault
  result s a s' hx :=
    have ⟨b, hrel, hy⟩ := h.result s a s' hx
    ⟨b, himp a b hrel, hy⟩

/-- What is known of whatever the first computation returns may be used. -/
theorem Render.Matches.and_result {post : α → Prop} (h : Matches written x y rel)
    (hpost : ∀ s a s', x s = .ok (a, s') → post a) :
    Matches written x y fun a b => rel a b ∧ post a where
  fault := h.fault
  result s a s' hx :=
    have ⟨b, hrel, hy⟩ := h.result s a s' hx
    ⟨b, ⟨hrel, hpost s a s' hx⟩, hy⟩

theorem blind_of_behind_eq (h : ∀ (written : ByteArray) (s : Session ω),
    x (s.behind written) = Except.map (fun p => (p.1, p.2.behind written)) (x s)) : Blind x := by
  intro s
  have hs := h s.response.output s.emptied
  rwa [s.emptied_behind] at hs

theorem blind_pure (a : α) : Blind (pure a : Render ω α) := blind_of_behind_eq fun _ _ => rfl

theorem blind_throw (f : Fault) : Blind (throw f : Render ω α) :=
  blind_of_behind_eq fun _ _ => rfl

/-- What is looked up does not depend on the output. -/
theorem blind_elim (found : Option α) (fault : Fault) :
    Blind (found.elim (throw fault) pure : Render ω α) := by
  cases found with
  | none => exact blind_throw fault
  | some a => exact blind_pure a

theorem blind_bind {f : α → Render ω β} (hx : Blind x) (hf : ∀ a, Blind (f a)) :
    Blind (x >>= f) :=
  blind_of_matches fun written => matches_bind_blind hx fun a => (hf a).matches written

theorem blind_isHalted : Blind (Render.isHalted : Render ω Bool) :=
  blind_of_behind_eq fun _ _ => rfl

theorem blind_respond (call : Response.Call) : Blind (Render.respond call : Render ω Unit) := by
  refine blind_of_behind_eq fun written s => ?_
  have h := s.response.behind_apply written call
  exact congrArg (fun r : Response => Except.ok ((), { s with response := r })) h

theorem matches_outputSize :
    Matches written (Render.outputSize : Render ω Nat) Render.outputSize
      fun n m => m = written.size + n where
  fault s f hx := by cases hx
  result s a s' hx := by cases hx; exact ⟨_, s.response.size_behind, rfl⟩

theorem matches_truncate (size : Nat) :
    Matches written (Render.modifyResponse (·.truncate size) : Render ω Unit)
      (Render.modifyResponse (·.truncate (written.size + size))) (· = ·) where
  fault s f hx := by cases hx
  result s a s' hx := by
    cases hx
    have h := s.response.behind_truncate written size
    refine ⟨(), rfl, ?_⟩
    exact congrArg (fun r : Response => Except.ok ((), { s with response := r })) h

/-- Either the response is halted, or both computations go on. -/
theorem matches_unless_halted {a : α} {b : β} (hab : rel a b) (h : Matches written x y rel) :
    Matches written (do if ← Render.isHalted then return a else x)
      (do if ← Render.isHalted then return b else y) rel := by
  refine matches_bind_blind blind_isHalted fun halted => ?_
  cases halted with
  | true => exact matches_pure hab
  | false => exact h

theorem blind_runEndings {endings : List (Ending ω)} (h : ∀ ending ∈ endings, Blind ending) :
    Blind (runEndings endings) := by
  induction endings with
  | nil => exact blind_pure ()
  | cons ending rest ih =>
    refine blind_bind blind_isHalted fun halted => ?_
    cases halted with
    | true => exact blind_pure ()
    | false =>
      exact blind_bind (h ending List.mem_cons_self) fun _ =>
        ih fun e he => h e (List.mem_cons_of_mem _ he)

end Matches

/-- The callback does not look at what was written before. -/
def Callback.Blind (data : δ) : Callback ω δ → Prop
  | .plain run => Render.Blind (run data)
  | .wrapper run => WrapperRender.Blind (run data)
  | .attributes run => AttributeRender.Blind (run data)

/-- The callback of the declaration, if there is one, does not look at what was written
before. -/
def Declaration.Blind (d : Declaration ω δ) : Prop :=
  ∀ callback, d.callback = some callback → ∀ data, callback.Blind data

/-- No callback of the template looks at what was written before. -/
abbrev Template.Blind (t : Template ω δ) (data : δ) : Prop :=
  t.EachCallback fun callback => callback.Blind data

/-! ## 3. What callbacks do -/

/-- Reads the status, the target, whether the response is halted, and the world, which is
changed. -/
def Render.look (f : UInt16 → Option String → Bool → ω → α × ω) : Render ω α := fun s =>
  let (a, world) := f s.response.status s.response.location s.response.halted s.world
  .ok (a, { s with world := world })

theorem Render.blind_look (f : UInt16 → Option String → Bool → ω → α × ω) :
    Blind (Render.look f) :=
  blind_of_behind_eq fun _ _ => rfl

namespace WrapperRender

theorem blind_lift {x : Render ω α} (hx : Render.Blind x) :
    WrapperRender.Blind (StateT.lift x) := by
  intro scope hscope
  refine ⟨HtmlTemplate.blind_bind hx fun a => blind_pure _, fun s a scope' s' h => ?_⟩
  obtain ⟨rfl, -⟩ := ok_of_lift h
  exact hscope

theorem blind_bind {x : WrapperRender ω α} {f : α → WrapperRender ω β}
    (hx : WrapperRender.Blind x) (hf : ∀ a, WrapperRender.Blind (f a)) :
    WrapperRender.Blind (x >>= f) := by
  intro scope hscope
  obtain ⟨hblind, hendings⟩ := hx scope hscope
  constructor
  · rw [StateT.run_bind]
    refine blind_of_matches fun written => matches_bind
      ((hblind.matches written).and_result fun s p s' => hendings s p.1 p.2 s') ?_
    rintro p _ ⟨rfl, hp⟩
    exact (hf p.1 p.2 hp).1.matches written
  · intro s b scope' s' h
    obtain ⟨a, scope₁, s₁, hrun, hrest⟩ := ok_of_bind h
    exact (hf a scope₁ (hendings s a scope₁ s₁ hrun)).2 s₁ b scope' s' hrest

theorem blind_addEnding {ending : Ending ω} (h : Render.Blind ending) :
    WrapperRender.Blind (addEnding ending) := by
  intro scope hscope
  refine ⟨blind_pure _, fun s a scope' s' hrun => ?_⟩
  cases hrun
  exact List.forall_mem_cons.mpr ⟨h, hscope⟩

theorem blind_skipContent : WrapperRender.Blind (skipContent : WrapperRender ω Unit) := by
  intro scope hscope
  refine ⟨blind_pure _, fun s a scope' s' hrun => ?_⟩
  cases hrun
  exact hscope

end WrapperRender

namespace AttributeRender

theorem blind_lift {x : Render ω α} (hx : Render.Blind x) :
    AttributeRender.Blind (StateT.lift x) :=
  fun _ => HtmlTemplate.blind_bind hx fun _ => blind_pure _

theorem blind_bind {x : AttributeRender ω α} {f : α → AttributeRender ω β}
    (hx : AttributeRender.Blind x) (hf : ∀ a, AttributeRender.Blind (f a)) :
    AttributeRender.Blind (x >>= f) :=
  fun scope => HtmlTemplate.blind_bind (hx scope) fun p => hf p.1 p.2

theorem blind_skipContent : AttributeRender.Blind (skipContent : AttributeRender ω Unit) :=
  fun _ => blind_pure _

theorem blind_skipElement : AttributeRender.Blind (skipElement : AttributeRender ω Unit) :=
  fun _ => blind_pure _

end AttributeRender

end HtmlTemplate
