import HtmlTemplate.Pool.Settings
import HtmlTemplate.Rendering.EndingStack
import HtmlTemplate.Rendering.Scope

/-!
# Pools

A pool keeps items that renders have used, so that later renders need no new
ones. The item returned last is handed out first. An item is recycled when it is
returned: nothing of its use is left. A full pool drops what is returned.

`Pools` holds the three pools of a process: ending stacks, frames and responses.
-/

namespace HtmlTemplate

/-- Things that can be used again. -/
class Recyclable (α : Type) where
  /-- An item that has not been used. -/
  fresh : α
  /-- The item as good as new. -/
  recycle : PoolSettings → α → α

/-- A frame: the endings that one wrapper callback has registered. -/
abbrev Frame (ω : Type) : Type := List (Ending ω)

instance (ε : Type) : Recyclable (List ε) where
  fresh := []
  recycle _ _ := []

instance (ε : Type) : Recyclable (EndingStack ε) where
  fresh := {}
  recycle settings stack :=
    { frames := (stack.frames.take settings.maxStackFrames).map fun _ => [] }

instance : Recyclable Response where
  fresh := {}
  recycle _ _ := {}

/-- Items waiting to be used again. -/
structure Pool (α : Type) where
  settings : PoolSettings
  /-- The number of items kept at most. -/
  limit : Nat
  /-- The items, the one returned last first. -/
  items : List α := []

namespace Pool

variable {α : Type} [Recyclable α]

/-- A pool without items, on a machine with this many processors. -/
def new (settings : PoolSettings) (processors : Nat) : Pool α :=
  { settings := settings, limit := settings.maxPooled.count processors }

/-- The number of items waiting. -/
def size (p : Pool α) : Nat := p.items.length

/-- Whether no item is waiting. -/
def isEmpty (p : Pool α) : Bool := p.items.isEmpty

/-- Takes the item returned last, or a fresh one. -/
def get (p : Pool α) : α × Pool α :=
  match p.items with
  | [] => (Recyclable.fresh, p)
  | item :: rest => (item, { p with items := rest })

/-- Returns an item. -/
def put (p : Pool α) (item : α) : Pool α :=
  if p.size < p.limit then
    { p with items := Recyclable.recycle p.settings item :: p.items }
  else p

@[simp] theorem limit_get (p : Pool α) : p.get.2.limit = p.limit := by
  unfold get; split <;> rfl

@[simp] theorem limit_put (p : Pool α) (item : α) : (p.put item).limit = p.limit := by
  unfold put; split <;> rfl

end Pool

/-- The pools of a process. -/
structure Pools (ω : Type) where
  endingStacks : Pool (EndingStack (Ending ω))
  frames : Pool (Frame ω)
  responses : Pool Response

namespace Pools

variable {ω : Type}

/-- Pools without items. -/
def new (settings : PoolSettings) (processors : Nat) : Pools ω :=
  { endingStacks := .new settings processors
    frames := .new settings processors
    responses := .new settings processors }

/-- Takes an ending stack with room for `depth` nested wrappers. -/
def acquireStack (p : Pools ω) (depth : Nat) : EndingStack (Ending ω) × Pools ω :=
  let (stack, rest) := p.endingStacks.get
  (stack.reserve depth, { p with endingStacks := rest })

/-- Takes a frame. -/
def acquireFrame (p : Pools ω) : Frame ω × Pools ω :=
  let (frame, frames) := p.frames.get
  (frame, { p with frames := frames })

/-- Takes a response. -/
def acquireResponse (p : Pools ω) : Response × Pools ω :=
  let (response, responses) := p.responses.get
  (response, { p with responses := responses })

end Pools

end HtmlTemplate
