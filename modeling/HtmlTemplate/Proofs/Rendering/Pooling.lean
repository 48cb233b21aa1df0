import HtmlTemplate.Proofs.Pool.Histories
import HtmlTemplate.Proofs.Rendering.Dropping
import HtmlTemplate.Proofs.Rendering.Reusing

/-!
# Rendering with pools

A run may take its ending stack from the pools of the process and return it at its end, and a
render may do so with the frame to which the endings of open wrappers are handed over. This module
has runs and renders in that form. They are computations in a world that holds the pools, so the
renders inside of callbacks use the same pools, and whatever else uses them may do so in between.

A pool of this world would hold endings that run in this world. Instead, what is returned is kept
as `EndingStore.keep` says and handed out as `EndingStore.give` says. Nothing is asked of either,
for it will turn out that no item that is handed out holds an ending.

Results:
1. `Component.runOnPools`, `Component.renderOnPools`, `Wrapper.renderOnPools`,
   `WrapperRender.wrapOnPools`, `PoolRender.serve`: rendering with the pools.
2. `mirrors_acquireStack` and others: what is taken from pools that have arisen.
3. `Component.mirrors_renderOnPools`, `Wrapper.mirrors_renderOnPools`,
   `WrapperRender.mirrors_wrapOnPools`: a render does with the pools what it does without them.
-/

namespace HtmlTemplate

open Render

variable {κ ω δ α β α' : Type}

/-! ## 1. Rendering with the pools -/

/-- A world, and the pools of the process. -/
structure Pooled (κ ω : Type) where
  pools : Pools κ
  world : ω

/-- A computation that renders, and uses the pools. -/
abbrev PoolRender (κ ω : Type) : Type → Type := Render (Pooled κ ω)

/-- The stack with other endings. -/
def EndingStack.map {ε ε' : Type} (f : ε → ε') (stack : EndingStack ε) : EndingStack ε' :=
  { frames := stack.frames.map (List.map f) }

theorem EndingStack.Ready.map {ε ε' : Type} {stack : EndingStack ε} {depth : Nat}
    (h : stack.Ready depth) (f : ε → ε') : (stack.map f).Ready depth := by
  refine ⟨List.all_eq_true.mpr fun frame' hmem => ?_, ?_⟩
  · obtain ⟨frame, hframe, rfl⟩ := List.mem_map.mp hmem
    exact List.isEmpty_map.trans (List.all_eq_true.mp h.isClear frame hframe)
  · exact Nat.le_trans h.depth_le (Nat.le_of_eq (List.length_map (List.map f)).symm)

/-- What the pools keep of endings, and what they hand out for them. -/
structure EndingStore (κ ω : Type) where
  keep : Ending (Pooled κ ω) → Ending κ
  give : Ending κ → Ending (Pooled κ ω)

namespace PoolRender

variable (store : EndingStore κ ω)

/-- Uses the pools, and returns something. -/
def usePools (f : Pools κ → α × Pools κ) : PoolRender κ ω α := fun s =>
  .ok ((f s.world.pools).1,
    { s with world := { s.world with pools := (f s.world.pools).2 } })

def acquireStack (depth : Nat) : PoolRender κ ω (EndingStack (Ending (Pooled κ ω))) :=
  usePools fun pools =>
    let (stack, rest) := pools.acquireStack depth
    (stack.map store.give, rest)

def returnStack (stack : EndingStack (Ending (Pooled κ ω))) : PoolRender κ ω Unit :=
  usePools fun pools => ((), pools.returnStack (stack.map store.keep))

def acquireFrame : PoolRender κ ω (Frame (Pooled κ ω)) :=
  usePools fun pools =>
    let (frame, rest) := pools.acquireFrame
    (frame.map store.give, rest)

def returnFrame (frame : Frame (Pooled κ ω)) : PoolRender κ ω Unit :=
  usePools fun pools => ((), pools.returnFrame (frame.map store.keep))

end PoolRender

open PoolRender

namespace Component

variable (store : EndingStore κ ω)

/-- Walks the component from a place on, unless the response is halted. The stack is taken from
the pools and returned, whatever the outcome. A component without wrappers needs none. -/
def runOnPools (c : Component (Pooled κ ω) δ) (data : δ) (place : Place) :
    PoolRender κ ω (Outcome (Pooled κ ω)) := do
  if ← Render.isHalted then return .halted
  if c.maxNesting = 0 then return (← c.walk data place {}).1
  let stack ← acquireStack store c.maxNesting
  let (outcome, stack) ← c.walk data place stack
  returnStack store stack
  return outcome

/-- Renders the component. A part before a content marker takes a frame for the endings of
wrappers left open. -/
def renderOnPools (c : Component (Pooled κ ω) δ) (data : δ) : PoolRender κ ω Unit := do
  if c.part = .preContent then
    let frame ← acquireFrame store
    match ← c.runOnPools store data c.entry with
    | .halted => returnFrame store frame
    | .finished carried | .swallowed _ carried => do
      runEndings (carried ++ frame)
      returnFrame store []
  else
    match ← c.runOnPools store data c.entry with
    | .halted => pure ()
    | .finished carried | .swallowed _ carried => runEndings carried

end Component

namespace Wrapper

variable (store : EndingStore κ ω)

/-- Renders the part of a wrapper behind its content marker, from a place on. -/
def renderPostOnPools (w : Wrapper (Pooled κ ω) δ) (data : δ) (place : Place) :
    PoolRender κ ω Unit := do
  let _ ← w.postContent.runOnPools store data place

/-- Renders a wrapper around the output of `inner`. -/
def renderOnPools (w : Wrapper (Pooled κ ω) δ) (data : δ) (inner : PoolRender κ ω Unit) :
    PoolRender κ ω Unit := do
  let frame ← acquireFrame store
  match ← w.preContent.runOnPools store data w.preContent.entry with
  | .halted => returnFrame store frame
  | .finished carried => do
    inner
    runEndings (carried ++ frame)
    w.renderPostOnPools store data w.content
    returnFrame store []
  | .swallowed resume carried => do
    runEndings (carried ++ frame)
    w.renderPostOnPools store data resume
    returnFrame store []

end Wrapper

namespace WrapperRender

variable (store : EndingStore κ ω)

/-- Registers the part of a wrapper behind its content marker as an ending, and the endings
carried over, and returns the frame in which these were. -/
def deferPostOnPools (w : Wrapper (Pooled κ ω) δ) (data : δ) (place : Place)
    (carried : List (Ending (Pooled κ ω))) : WrapperRender (Pooled κ ω) Unit := do
  modify fun scope =>
    { scope with endings := carried ++ w.renderPostOnPools store data place :: scope.endings }
  StateT.lift (returnFrame store [])

/-- Wraps the content of the wrapper marker at hand in `w`. -/
def wrapOnPools (w : Wrapper (Pooled κ ω) δ) (data : δ) : WrapperRender (Pooled κ ω) Unit := do
  let frame ← StateT.lift (acquireFrame store)
  match ← StateT.lift (w.preContent.runOnPools store data w.preContent.entry) with
  | .halted => StateT.lift (returnFrame store frame)
  | .finished carried => deferPostOnPools store w data w.content (carried ++ frame)
  | .swallowed resume carried => do
    skipContent
    deferPostOnPools store w data resume (carried ++ frame)

end WrapperRender

/-- Renders into a response from the pools, which get it back: the response as it was rendered,
and the world. -/
def PoolRender.serve (x : PoolRender κ ω Unit) (world : Pooled κ ω) :
    Except Fault (Response × Pooled κ ω) := do
  let (response, pools) := world.pools.acquireResponse
  let (_, s) ← x { response := response, world := { world with pools := pools } }
  return (s.response, { s.world with pools := s.world.pools.returnResponse s.response })

/-! ## 2. What is taken from the pools -/

/-- The world is the same, and the pools have come from new ones. -/
structure Pooled.Beside (world' : Pooled κ ω) (world : ω) : Prop where
  world_eq : world'.world = world
  arises : world'.pools.Arises

section Rules

variable {store : EndingStore κ ω} {x : Render ω α} {post : α' → α → Prop}

/-- The pools are used, and nothing else happens. -/
theorem mirrors_usePools {f : Pools κ → β × Pools κ} {p : β → Prop}
    (hf : ∀ pools, pools.Arises → p (f pools).1 ∧ (f pools).2.Arises)
    {f' : β → PoolRender κ ω α'} (h : ∀ b, p b → Mirrors Pooled.Beside (f' b) x post) :
    Mirrors Pooled.Beside (usePools f >>= f') x post := by
  refine mirrors_left (p := p) (fun s' s hs => ?_) h
  have hpools := hf s'.world.pools hs.world.arises
  exact ⟨_, _, rfl, hpools.1, hs.response_eq, hs.world.world_eq, hpools.2⟩

/-- Whatever is handed out is clear. -/
theorem mirrors_acquireStack (depth : Nat)
    {f' : EndingStack (Ending (Pooled κ ω)) → PoolRender κ ω α'}
    (h : ∀ stack, stack.Ready depth → Mirrors Pooled.Beside (f' stack) x post) :
    Mirrors Pooled.Beside (acquireStack store depth >>= f') x post := by
  refine mirrors_usePools (p := fun stack => stack.Ready depth) (fun pools hpools => ?_) h
  exact ⟨(hpools.ready_acquireStack depth).map store.give, hpools.acquireStack depth⟩

theorem mirrors_acquireFrame {f' : Frame (Pooled κ ω) → PoolRender κ ω α'}
    (h : Mirrors Pooled.Beside (f' []) x post) :
    Mirrors Pooled.Beside (acquireFrame store >>= f') x post := by
  refine mirrors_usePools (p := (· = [])) (fun pools hpools => ?_) fun frame hframe => ?_
  · exact ⟨congrArg (List.map store.give) hpools.acquireFrame_eq, hpools.acquireFrame⟩
  · cases hframe
    exact h

theorem WrapperRender.mirrors_acquireFrame {f' : Frame (Pooled κ ω) → WrapperRender (Pooled κ ω) α}
    {y : WrapperRender ω α} (h : (f' []).Mirrors Pooled.Beside y) :
    WrapperRender.Mirrors Pooled.Beside (StateT.lift (acquireFrame store) >>= f') y := by
  intro scope' scope hscope
  rw [StateT.run_bind, StateT.run_lift, bind_assoc]
  exact HtmlTemplate.mirrors_acquireFrame (h scope' scope hscope)

theorem mirrors_returnStack (stack : EndingStack (Ending (Pooled κ ω)))
    {x' : PoolRender κ ω α'} (h : Mirrors Pooled.Beside x' x post) :
    Mirrors Pooled.Beside (returnStack store stack >>= fun _ => x') x post :=
  mirrors_usePools (p := fun _ => True) (fun _ hpools => ⟨trivial, hpools.returnStack _⟩)
    fun _ _ => h

theorem mirrors_returnFrame (frame : Frame (Pooled κ ω)) {x' : PoolRender κ ω α'}
    (h : Mirrors Pooled.Beside x' x post) :
    Mirrors Pooled.Beside (returnFrame store frame >>= fun _ => x') x post :=
  mirrors_usePools (p := fun _ => True) (fun _ hpools => ⟨trivial, hpools.returnFrame _⟩)
    fun _ _ => h

/-- The endings handed over are run from the frame that has been taken. -/
theorem mirrors_runCarried {carried' : List (Ending (Pooled κ ω))} {carried : List (Ending ω)}
    (h : EndingsMirror Pooled.Beside carried' carried) :
    Mirrors Pooled.Beside (runEndings (carried' ++ [])) (runEndings carried) (· = ·) :=
  (List.append_nil carried').symm ▸ mirrors_runEndings h

/-- A frame is returned at the end. -/
theorem mirrors_releaseFrame (frame : Frame (Pooled κ ω)) :
    Mirrors Pooled.Beside (returnFrame store frame) (pure () : Render ω Unit) (· = ·) := by
  rw [← bind_pure (returnFrame store frame)]
  exact mirrors_returnFrame frame (mirrors_pure rfl)

end Rules

/-! ## 3. Runs and renders -/

section Renders

variable {store : EndingStore κ ω} {data : δ} {content? : Option Place} {place : Place}

/-- What is done at the end of both computations may be followed by something in one world. -/
theorem mirrors_andThen {x' y' : PoolRender κ ω Unit} {x : Render ω Unit}
    (hx : Mirrors Pooled.Beside x' x (· = ·))
    (hy : Mirrors Pooled.Beside y' (pure () : Render ω Unit) (· = ·)) :
    Mirrors Pooled.Beside (x' >>= fun _ => y') x (· = ·) := by
  rw [← bind_pure x]
  exact mirrors_bind hx fun _ _ _ => hy

namespace Component

variable {c' : Component (Pooled κ ω) δ} {c : Component ω δ}

/-- A run does what it does with a stack of its own. -/
theorem mirrors_runOnPools (hc : c'.Matches (Callback.Mirrors Pooled.Beside) c)
    (hw : c.WellFormed content?) (hp : c.Placed (c.cursorAt place {})) :
    Mirrors Pooled.Beside (c'.runOnPools store data place) (c.run data place)
      (Outcome.Mirrors Pooled.Beside) := by
  refine mirrors_unless_halted .halted ?_
  have hwalk : ∀ stack', stack'.Ready c.maxNesting → Mirrors Pooled.Beside
      (c'.walk data place stack') (c.walk data place (.ofDepth c.maxNesting))
      (EndsClear Pooled.Beside) := by
    intro stack' h'
    have hp₁ : c.Placed (c.cursorAt place (.ofDepth c.maxNesting)) := hp
    exact mirrors_walk hc hw hp₁ h' (EndingStack.ready_ofDepth _)
  rw [hc.maxNesting_eq]
  split
  · next hzero =>
    refine mirrors_bind (hwalk {} ⟨rfl, Nat.le_of_eq hzero⟩) fun p' p hend => ?_
    exact mirrors_pure hend.outcome
  · refine mirrors_acquireStack _ fun stack hready => ?_
    refine mirrors_bind (hwalk stack hready) fun p' p hend => ?_
    exact mirrors_returnStack _ (mirrors_pure hend.outcome)

theorem mirrors_renderOnPools (hc : c'.Matches (Callback.Mirrors Pooled.Beside) c)
    (hw : c.WellFormed content?) :
    Mirrors Pooled.Beside (c'.renderOnPools store data) (c.render data) (· = ·) := by
  have hrun : Mirrors Pooled.Beside (c'.runOnPools store data c.entry) (c.run data c.entry)
      (Outcome.Mirrors Pooled.Beside) :=
    mirrors_runOnPools hc hw (placed_cursorAt_entry hw {})
  unfold renderOnPools
  rw [hc.part_eq, hc.entry_eq]
  split
  · refine mirrors_acquireFrame (mirrors_bind hrun fun outcome' outcome houtcome => ?_)
    cases houtcome with
    | halted => exact mirrors_releaseFrame _
    | finished hcarried | swallowed resume hcarried =>
      exact mirrors_andThen (mirrors_runCarried hcarried) (mirrors_releaseFrame _)
  · refine mirrors_bind hrun fun outcome' outcome houtcome => ?_
    cases houtcome with
    | halted => exact mirrors_pure rfl
    | finished hcarried | swallowed resume hcarried => exact mirrors_runEndings hcarried

end Component

section Wrapper

variable {w' : Wrapper (Pooled κ ω) δ} {w : Wrapper ω δ} {source : String}
  {declarations : List (Declaration ω δ)}
  (hw' : w'.Matches (Callback.Mirrors Pooled.Beside) w)
  (hw : Wrapper.compile source declarations = .ok w)
include hw' hw

/-- The part behind the content marker, wherever it is resumed. -/
theorem Wrapper.mirrors_renderPostOnPools (hplace : w.ResumesAt data place) :
    Mirrors Pooled.Beside (w'.renderPostOnPools store data place) (w.renderPost data place)
      (· = ·) := by
  have hpost := (Wrapper.wellFormed_of_compile hw).postContent
  have hplaced := (hplace.beginsAt hw).placed
  exact mirrors_bind (Component.mirrors_runOnPools hw'.postContent hpost hplaced) fun _ _ _ =>
    mirrors_pure rfl

/-- If the part before the content marker drops that, then the part behind it is resumed. -/
theorem Wrapper.mirrors_before :
    Mirrors Pooled.Beside (w'.preContent.runOnPools store data w'.preContent.entry)
      (w.preContent.run data w.preContent.entry) fun outcome' outcome =>
        outcome'.Mirrors Pooled.Beside outcome ∧
          ∀ resume carried, outcome = .swallowed resume carried → w.ResumesAt data resume := by
  have hpre := (Wrapper.wellFormed_of_compile hw).preContent
  refine (Component.mirrors_runOnPools hw'.preContent hpre
    (Component.placed_cursorAt_entry hpre {})).and_result ?_
  rintro s outcome t hrun resume carried rfl
  exact .inr ⟨s, carried, t, hrun⟩

theorem Wrapper.mirrors_renderOnPools {inner' : PoolRender κ ω Unit} {inner : Render ω Unit}
    (hinner : Mirrors Pooled.Beside inner' inner (· = ·)) :
    Mirrors Pooled.Beside (w'.renderOnPools store data inner') (w.render data inner) (· = ·) := by
  refine mirrors_acquireFrame (mirrors_bind (mirrors_before hw' hw) ?_)
  rintro outcome' outcome ⟨houtcome, hresume⟩
  cases houtcome with
  | halted => exact mirrors_releaseFrame _
  | finished hcarried =>
    rw [hw'.content_eq]
    refine mirrors_bind hinner fun _ _ _ => ?_
    refine mirrors_bind (mirrors_runCarried hcarried) fun _ _ _ => ?_
    exact mirrors_andThen (mirrors_renderPostOnPools hw' hw (.inl rfl)) (mirrors_releaseFrame _)
  | swallowed resume hcarried =>
    refine mirrors_bind (mirrors_runCarried hcarried) fun _ _ _ => ?_
    exact mirrors_andThen (mirrors_renderPostOnPools hw' hw (hresume _ _ rfl))
      (mirrors_releaseFrame _)

theorem WrapperRender.mirrors_deferPostOnPools (hplace : w.ResumesAt data place)
    {carried' : List (Ending (Pooled κ ω))} {carried : List (Ending ω)}
    (hcarried : EndingsMirror Pooled.Beside carried' carried) :
    (deferPostOnPools store w' data place (carried' ++ [])).Mirrors Pooled.Beside
      (deferPost w data place carried) := by
  have hpost : Render.Mirrors Pooled.Beside (w'.renderPostOnPools store data place)
      (w.renderPost data place) (· = ·) := Wrapper.mirrors_renderPostOnPools hw' hw hplace
  rw [← bind_pure (deferPost w data place carried), List.append_nil]
  refine WrapperRender.mirrors_bind (mirrors_modify fun scope' scope hscope => ?_) fun _ =>
    mirrors_lift (mirrors_releaseFrame [])
  exact ⟨List.rel_append hcarried (.cons hpost hscope.endings), hscope.skipContent_eq⟩

theorem WrapperRender.mirrors_wrapOnPools :
    (wrapOnPools store w' data).Mirrors Pooled.Beside (wrap w data) := by
  refine mirrors_acquireFrame (mirrors_lift_bind (Wrapper.mirrors_before hw' hw) ?_)
  rintro outcome' outcome ⟨houtcome, hresume⟩
  cases houtcome with
  | halted => exact mirrors_lift (mirrors_releaseFrame [])
  | finished hcarried =>
    rw [hw'.content_eq]
    exact mirrors_deferPostOnPools hw' hw (.inl rfl) hcarried
  | swallowed resume hcarried =>
    exact WrapperRender.mirrors_bind mirrors_skipContent fun _ =>
      mirrors_deferPostOnPools hw' hw (hresume _ _ rfl) hcarried

end Wrapper

end Renders

end HtmlTemplate
