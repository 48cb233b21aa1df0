import HtmlTemplate.Pool.Basic
import HtmlTemplate.Proofs.Rendering.Fields
import HtmlTemplate.Proofs.Rendering.Frames

/-!
# What is taken from pools

Items are recycled when they are returned, so whatever has been done to them, an item that is
taken is as good as new. A stack may come with frames that a deeper component has had, and none
of them holds an ending.

A pool `Arises` from a new one by items being taken and returned in any order, with any settings,
and with anything left in the items: a render that is halted returns its stack with endings on it.

Results:
1. `Pool.Arises.get_of`: what holds of fresh and of recycled items holds of all that are taken.
2. `Pools.Arises.ready_acquireStack`, `Pools.Arises.acquireFrame_eq`,
   `Pools.Arises.acquireResponse_eq`: what the pools of a process hand out.
3. `FieldedResponse.get_eq_fresh`: the same of responses with the fields for what callbacks ask for.
-/

namespace HtmlTemplate

/-! ## 1. One pool -/

namespace Pool

variable {α : Type} [Recyclable α] {p : Pool α}

/-- The pool has come from a new one by items being taken and returned. -/
inductive Arises : Pool α → Prop
  | new (settings : PoolSettings) (processors : Nat) : Arises (.new settings processors)
  | get {p : Pool α} : p.Arises → p.get.2.Arises
  | put {p : Pool α} (item : α) : p.Arises → (p.put item).Arises

/-- What holds of recycled items holds of all that are waiting. -/
theorem Arises.each (h : p.Arises) (good : α → Prop)
    (hrecycled : ∀ settings item, good (Recyclable.recycle settings item)) :
    ∀ item ∈ p.items, good item := by
  induction h with
  | new settings processors => exact List.forall_mem_nil good
  | @get p _ ih =>
    unfold Pool.get
    split
    · exact ih
    · next item rest hitems => exact (List.forall_mem_cons.mp (hitems ▸ ih)).2
  | @put p item _ ih =>
    unfold Pool.put
    split
    · exact List.forall_mem_cons.mpr ⟨hrecycled _ _, ih⟩
    · exact ih

/-- What holds of a fresh item and of recycled ones holds of every item that is taken. -/
theorem Arises.get_of (h : p.Arises) (good : α → Prop) (hfresh : good Recyclable.fresh)
    (hrecycled : ∀ settings item, good (Recyclable.recycle settings item)) : good p.get.1 := by
  unfold Pool.get
  split
  · exact hfresh
  · next item rest hitems => exact h.each good hrecycled item (hitems ▸ List.mem_cons_self)

end Pool

/-! ## 2. The pools of a process -/

/-- A stack that is given back to its pool holds no ending, whatever a walk has left on it. -/
theorem EndingStack.isClear_recycle {ε : Type} (settings : PoolSettings) (stack : EndingStack ε) :
    (Recyclable.recycle settings stack).isClear = true := by
  refine List.all_eq_true.mpr fun frame hframe => ?_
  obtain ⟨_, -, rfl⟩ := List.mem_map.mp hframe
  rfl

namespace Pools

variable {ω : Type} {p : Pools ω}

def returnStack (p : Pools ω) (stack : EndingStack (Ending ω)) : Pools ω :=
  { p with endingStacks := p.endingStacks.put stack }

def returnFrame (p : Pools ω) (frame : Frame ω) : Pools ω :=
  { p with frames := p.frames.put frame }

def returnResponse (p : Pools ω) (response : Response) : Pools ω :=
  { p with responses := p.responses.put response }

/-- Each of the pools has come from a new one by items being taken and returned. -/
structure Arises (p : Pools ω) : Prop where
  endingStacks : p.endingStacks.Arises
  frames : p.frames.Arises
  responses : p.responses.Arises

theorem arises_new (settings : PoolSettings) (processors : Nat) :
    (new settings processors : Pools ω).Arises :=
  ⟨.new _ _, .new _ _, .new _ _⟩

namespace Arises

theorem acquireStack (h : p.Arises) (depth : Nat) : (p.acquireStack depth).2.Arises :=
  { h with endingStacks := h.endingStacks.get }

theorem acquireFrame (h : p.Arises) : p.acquireFrame.2.Arises :=
  { h with frames := h.frames.get }

theorem acquireResponse (h : p.Arises) : p.acquireResponse.2.Arises :=
  { h with responses := h.responses.get }

theorem returnStack (h : p.Arises) (stack : EndingStack (Ending ω)) :
    (p.returnStack stack).Arises :=
  { h with endingStacks := h.endingStacks.put stack }

theorem returnFrame (h : p.Arises) (frame : Frame ω) : (p.returnFrame frame).Arises :=
  { h with frames := h.frames.put frame }

theorem returnResponse (h : p.Arises) (response : Response) :
    (p.returnResponse response).Arises :=
  { h with responses := h.responses.put response }

/-- A stack that is taken is clear, and has the room that is asked for. -/
theorem ready_acquireStack (h : p.Arises) (depth : Nat) :
    (p.acquireStack depth).1.Ready depth := by
  have hclear : p.endingStacks.get.1.isClear = true :=
    h.endingStacks.get_of (·.isClear = true) rfl EndingStack.isClear_recycle
  constructor
  · exact (EndingStack.isClear_reserve _ depth).trans hclear
  · exact Nat.le_trans (Nat.le_max_right _ _)
      (Nat.le_of_eq (EndingStack.depthCapacity_reserve _ depth).symm)

/-- A frame that is taken is empty. -/
theorem acquireFrame_eq (h : p.Arises) : p.acquireFrame.1 = [] :=
  h.frames.get_of (· = []) rfl fun _ _ => rfl

/-- A response that is taken is like a fresh one. -/
theorem acquireResponse_eq (h : p.Arises) : p.acquireResponse.1 = {} :=
  h.responses.get_of (· = {}) rfl fun _ _ => rfl

end Arises

end Pools

/-! ## 3. Responses with fields -/

/-- A response with the fields for what callbacks ask for. -/
structure FieldedResponse (ω : Type) where
  response : Response := {}
  fields : Fields ω := {}

/-- When it is returned, each field is reset. -/
instance (ω : Type) : Recyclable (FieldedResponse ω) where
  fresh := {}
  recycle _ r :=
    { response := { r.response with
        output := .empty
        status := 200
        location := none
        halted := false }
      fields := { r.fields with
        frame := []
        skipContent := false
        skipElement := false } }

/-- Nothing is left of the use of a response, in any of its fields. -/
theorem FieldedResponse.get_eq_fresh {ω : Type} {p : Pool (FieldedResponse ω)}
    (h : p.Arises) : p.get.1 = {} :=
  h.get_of (· = {}) rfl fun _ _ => rfl

end HtmlTemplate
