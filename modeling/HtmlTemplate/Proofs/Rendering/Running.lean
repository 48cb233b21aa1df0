import HtmlTemplate.Rendering.Walk

/-!
# Running computations that render

What the basic steps of a rendering computation do to a session, so that proofs
about walks run a computation step by step and never open the monad.

A computation is `Idle` if a halted response keeps it from doing anything. What
the library does by itself is idle; only callbacks need not be.

Results:
1. `bind_of_ok`, `ok_of_bind`, `bind_congr_of_ok`: what is run one after the other.
2. `Idle.run_unit`: nothing is done once the response is halted.
3. `writeRawBytes_append`, `writeLiteral_eq`: literal bytes may be written in pieces.
4. `runEndings_append`: endings may be run in pieces.
5. `ok_of_scoped_bind`, `WrapperRender.wrap_eq_ok`: what callbacks with a scope do, and what
   `wrap` registers.
-/

namespace HtmlTemplate

variable {ω δ α β : Type}

namespace Render

/-! ## 1. One step of a run -/

theorem bind_of_ok {x : Render ω α} {f : α → Render ω β} {s s' : Session ω} {a : α}
    (h : x s = .ok (a, s')) : (x >>= f) s = f a s' := by
  show (x s >>= fun p => f p.1 p.2) = f a s'
  rw [h]
  rfl

theorem bind_of_error {x : Render ω α} {f : α → Render ω β} {s : Session ω} {e : Fault}
    (h : x s = .error e) : (x >>= f) s = .error e := by
  show (x s >>= fun p => f p.1 p.2) = .error e
  rw [h]
  rfl

/-- What follows a run depends on its result only. -/
theorem bind_eq_of_eq {x y : Render ω α} {f : α → Render ω β} {s s' : Session ω}
    (h : x s = y s') : (x >>= f) s = (y >>= f) s' := by
  show (x s >>= fun p => f p.1 p.2) = (y s' >>= fun p => f p.1 p.2)
  rw [h]

/-- Two computations that begin alike are equal where what follows is equal. -/
theorem bind_congr_of_ok {x : Render ω α} {f g : α → Render ω β} {s : Session ω}
    (h : ∀ a s', x s = .ok (a, s') → f a s' = g a s') : (x >>= f) s = (x >>= g) s := by
  cases hx : x s with
  | error e => rw [bind_of_error hx, bind_of_error hx]
  | ok p => rw [bind_of_ok hx, bind_of_ok hx, h p.1 p.2 hx]

/-- A run of a sequence that returns is a run of both its parts. -/
theorem ok_of_bind {x : Render ω α} {f : α → Render ω β} {s t : Session ω} {b : β}
    (h : (x >>= f) s = .ok (b, t)) : ∃ a s', x s = .ok (a, s') ∧ f a s' = .ok (b, t) := by
  cases hx : x s with
  | error e =>
    rw [bind_of_error hx] at h
    cases h
  | ok p =>
    rw [bind_of_ok hx] at h
    exact ⟨p.1, p.2, rfl, h⟩

@[simp] theorem pure_run (a : α) (s : Session ω) : (pure a : Render ω α) s = .ok (a, s) := rfl

@[simp] theorem writeRawBytes_run (bytes : ByteArray) (s : Session ω) :
    Render.writeRawBytes bytes s =
      .ok ((), { s with response := s.response.writeRawBytes bytes }) := rfl

@[simp] theorem isHalted_bind (f : Bool → Render ω β) (s : Session ω) :
    (Render.isHalted >>= f) s = f s.response.halted s := rfl

/-! ## 2. Halted responses -/

/-- The computation, unless the response is halted. -/
def unlessHalted (x : Render ω Unit) : Render ω Unit := do
  unless ← Render.isHalted do x

theorem unlessHalted_of_halted (x : Render ω Unit) {s : Session ω}
    (h : s.response.halted = true) : unlessHalted x s = .ok ((), s) := by
  simp [unlessHalted, h]

theorem unlessHalted_of_running (x : Render ω Unit) {s : Session ω}
    (h : s.response.halted = false) : unlessHalted x s = x s := by
  simp [unlessHalted, h]

/-- The computation does nothing if the response is halted. -/
def Idle (x : Render ω α) : Prop :=
  ∀ s : Session ω, s.response.halted = true → ∃ a, x s = .ok (a, s)

theorem idle_pure (a : α) : Idle (pure a : Render ω α) := fun _ _ => ⟨a, rfl⟩

theorem idle_bind {x : Render ω α} {f : α → Render ω β} (hx : Idle x) (hf : ∀ a, Idle (f a)) :
    Idle (x >>= f) := by
  intro s hs
  obtain ⟨a, ha⟩ := hx s hs
  rw [bind_of_ok ha]
  exact hf a s hs

theorem idle_unlessHalted (x : Render ω Unit) : Idle (unlessHalted x) :=
  fun _ hs => ⟨(), unlessHalted_of_halted x hs⟩

theorem idle_writeRawBytes (bytes : ByteArray) :
    Idle (Render.writeRawBytes bytes : Render ω Unit) := by
  intro s hs
  refine ⟨(), ?_⟩
  simp [Response.writeRawBytes, hs]

theorem idle_writeRaw (html : String) : Idle (Render.writeRaw html : Render ω Unit) :=
  idle_writeRawBytes html.toUTF8

/-- An idle computation without a result leaves a halted response as it is. -/
theorem Idle.run_unit {x : Render ω Unit} (hx : Idle x) {s : Session ω}
    (hs : s.response.halted = true) : x s = .ok ((), s) :=
  let ⟨_, h⟩ := hx s hs
  h

theorem Idle.unlessHalted_eq {x : Render ω Unit} (hx : Idle x) : unlessHalted x = x := by
  funext s
  cases hs : s.response.halted with
  | true => rw [unlessHalted_of_halted x hs, hx.run_unit hs]
  | false => exact unlessHalted_of_running x hs

end Render

/-! ## 3. Writing -/

namespace Response

@[simp] theorem halted_writeRawBytes (r : Response) (bytes : ByteArray) :
    (r.writeRawBytes bytes).halted = r.halted := by
  unfold writeRawBytes
  split <;> rfl

@[simp] theorem writeRawBytes_empty (r : Response) : r.writeRawBytes ByteArray.empty = r := by
  simp [writeRawBytes]

theorem writeRawBytes_append (r : Response) (a b : ByteArray) :
    r.writeRawBytes (a ++ b) = (r.writeRawBytes a).writeRawBytes b := by
  cases h : r.halted <;> simp [writeRawBytes, h, ByteArray.append_assoc]

theorem writeRaw_append (r : Response) (front back : String) :
    r.writeRaw (front ++ back) = (r.writeRaw front).writeRaw back := by
  simp only [writeRaw, String.toUTF8, String.toByteArray_append, writeRawBytes_append]

end Response

namespace Render

theorem writeRaw_empty : (Render.writeRaw "" : Render ω Unit) = pure () := by
  funext s
  show Except.ok ((), { s with response := s.response.writeRawBytes ByteArray.empty }) = .ok ((), s)
  rw [Response.writeRawBytes_empty]

theorem writeRaw_append (front back : String) :
    (Render.writeRaw (front ++ back) : Render ω Unit) =
      (do Render.writeRaw front; Render.writeRaw back) := by
  funext s
  show Except.ok ((), { s with response := s.response.writeRaw (front ++ back) }) =
    .ok ((), { s with response := (s.response.writeRaw front).writeRaw back })
  rw [Response.writeRaw_append]

end Render

namespace Template

/-- Literal bytes that exist are written like any bytes. -/
theorem writeLiteral_eq (t : Template ω δ) {start stop : Nat} (h : start ≤ stop)
    (hs : stop ≤ t.html.size) :
    t.writeLiteral start stop = Render.writeRawBytes (t.html.extract start stop) := by
  simp [writeLiteral, h, hs]

end Template

/-! ## 4. Endings -/

open Render

theorem runEndings_cons (ending : Ending ω) (rest : List (Ending ω)) :
    runEndings (ending :: rest) = unlessHalted (do ending; runEndings rest) := rfl

theorem idle_runEndings (endings : List (Ending ω)) : Idle (runEndings endings) := by
  cases endings with
  | nil => exact idle_pure ()
  | cons ending rest => exact idle_unlessHalted _

/-- Endings may be run in two groups, the ones that come first before the others. -/
theorem runEndings_append (first last : List (Ending ω)) :
    runEndings (first ++ last) = (do runEndings first; runEndings last) := by
  induction first with
  | nil => rfl
  | cons ending rest ih =>
    funext s
    rw [List.cons_append, runEndings_cons, runEndings_cons]
    cases hs : s.response.halted with
    | true =>
      rw [unlessHalted_of_halted _ hs, bind_of_ok (unlessHalted_of_halted _ hs),
        (idle_runEndings last).run_unit hs]
    | false =>
      rw [unlessHalted_of_running _ hs, ih]
      have hb : (unlessHalted (do ending; runEndings rest) >>= fun _ => runEndings last) s =
          ((do ending; runEndings rest) >>= fun _ => runEndings last) s := by
        show (unlessHalted _ s >>= _) = (_ >>= _)
        rw [unlessHalted_of_running _ hs]
      rw [hb, bind_assoc]

/-- The endings that a walk hands to its caller. -/
def Outcome.carried {ω : Type} : Outcome ω → List (Ending ω)
  | .halted => []
  | .finished carried | .swallowed _ carried => carried

/-! ## 5. Callbacks with a scope -/

namespace Render

variable {σ : Type} {scope scope' : σ} {s s' : Session ω}

/-- A sequence that returns in a scope is a run of both its parts in scopes. -/
theorem ok_of_scoped_bind {x : StateT σ (Render ω) α} {f : α → StateT σ (Render ω) β} {b : β}
    (h : (x >>= f).run scope s = .ok ((b, scope'), s')) : ∃ a scope₁ s₁,
      x.run scope s = .ok ((a, scope₁), s₁) ∧ (f a).run scope₁ s₁ = .ok ((b, scope'), s') := by
  rw [StateT.run_bind] at h
  obtain ⟨⟨a, scope₁⟩, s₁, hx, hf⟩ := ok_of_bind h
  exact ⟨a, scope₁, s₁, hx, hf⟩

theorem ok_of_scoped_lift {x : Render ω α} {a : α}
    (h : (StateT.lift x : StateT σ (Render ω) α).run scope s = .ok ((a, scope'), s')) :
    scope' = scope ∧ x s = .ok (a, s') := by
  rw [StateT.run_lift] at h
  obtain ⟨b, s₁, hx, hpure⟩ := ok_of_bind h
  cases hpure
  exact ⟨rfl, hx⟩

end Render

namespace WrapperRender

theorem ok_of_bind {x : WrapperRender ω α} {f : α → WrapperRender ω β}
    {scope scope' : WrapperScope ω} {s s' : Session ω} {b : β}
    (h : (x >>= f).run scope s = .ok ((b, scope'), s')) : ∃ a scope₁ s₁,
      x.run scope s = .ok ((a, scope₁), s₁) ∧ (f a).run scope₁ s₁ = .ok ((b, scope'), s') :=
  Render.ok_of_scoped_bind h

theorem ok_of_lift {x : Render ω α} {scope scope' : WrapperScope ω} {s s' : Session ω}
    {a : α} (h : (StateT.lift x : WrapperRender ω α).run scope s = .ok ((a, scope'), s')) :
    scope' = scope ∧ x s = .ok (a, s') :=
  Render.ok_of_scoped_lift h

/-- What `wrap` registers: nothing if the response is halted, else what the part before the
content marker hands over, in front of the part behind it, or of what is left of that. -/
theorem wrap_eq_ok {w : Wrapper ω δ} {data : δ} {scope scope' : WrapperScope ω}
    {s s' : Session ω} {u : Unit} (h : (wrap w data).run scope s = .ok ((u, scope'), s')) :
    ∃ outcome, w.preContent.run data w.preContent.entry s = .ok (outcome, s') ∧
      ((outcome = .halted ∧ scope' = scope) ∨ ∃ place,
        (place = w.content ∨ outcome = .swallowed place outcome.carried) ∧
        scope'.endings = outcome.carried ++ w.renderPost data place :: scope.endings) := by
  obtain ⟨outcome, scope₁, s₁, hlift, hrest⟩ := ok_of_bind h
  obtain ⟨rfl, hrun⟩ := ok_of_lift hlift
  refine ⟨outcome, ?_⟩
  cases outcome with
  | halted =>
    cases hrest
    exact ⟨hrun, .inl ⟨rfl, rfl⟩⟩
  | finished carried =>
    cases hrest
    exact ⟨hrun, .inr ⟨w.content, .inl rfl, rfl⟩⟩
  | swallowed resume carried =>
    cases hrest
    exact ⟨hrun, .inr ⟨resume, .inr rfl, rfl⟩⟩

end WrapperRender

end HtmlTemplate
