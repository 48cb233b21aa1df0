import Mathlib.Data.List.Perm.Subperm
import HtmlTemplate.Proofs.Pool.Histories

/-!
# Items that are in use, and items that wait

An item is in one place: somebody has it, or it waits in its pool. `Custody` is a pool together
with what has been taken from it. Items are taken, used and returned in any order, and a use may do
anything to the item at hand. To tell one item from another, and what was returned first from what
was returned last, items carry labels (`Labelled`). Pools do not look at the labels: `Pool.get_map`
and `Pool.put_map` say that the same happens without them.

There are three pools in a process. `Stock` has the custody of each.

Results:
1. `Custody.subperm_numbers_step`: a step makes one new item at most, and doubles none.
2. `Custody.Orderly.step`, `Custody.orderly_run`: what each step preserves, and so every run.
3. `Custody.Orderly.takes`, `Custody.stores_drop`: which item is handed out, and when one is stored.
4. `Stock.run_eq`: what happens at one pool depends on what is done with its own items only.
5. `Stock.pools_take`, `Stock.pools_drop`: without the labels, these are the pools of a process.
6. `stock_governed`: all of this for each pool of a process.
-/

namespace HtmlTemplate

/-! ## 1. Labels -/

/-- An item with a label that tells which one it is, and where it has been. -/
structure Labelled (α : Type) where
  item : α
  /-- Which item it is. An item that is made gets its number when it is handed out. -/
  number : Option Nat := none
  /-- When it was returned last. -/
  returned : Nat := 0

instance (α : Type) [Recyclable α] : Recyclable (Labelled α) where
  fresh := { item := Recyclable.fresh }
  recycle settings x := { x with item := Recyclable.recycle settings x.item }

namespace Pool

variable {α β : Type} [Recyclable α] [Recyclable β] {f : α → β}

/-- The pool with other items in the place of those that wait. -/
def map (f : α → β) (p : Pool α) : Pool β :=
  { settings := p.settings, limit := p.limit, items := p.items.map f }

/-- Taking an item does not depend on what `f` leaves out. -/
theorem get_map (hfresh : f Recyclable.fresh = Recyclable.fresh) (p : Pool α) :
    (p.map f).get = (f p.get.1, p.get.2.map f) := by
  obtain ⟨settings, limit, items⟩ := p
  cases items with
  | nil => exact congrArg (·, _) hfresh.symm
  | cons item rest => rfl

/-- Neither does returning one. -/
theorem put_map (hrecycle : ∀ settings x,
      f (Recyclable.recycle settings x) = Recyclable.recycle settings (f x))
    (p : Pool α) (x : α) : (p.map f).put (f x) = (p.put x).map f := by
  have hsize : (p.map f).size = p.size := List.length_map f
  unfold put
  rw [hsize]
  show (if p.size < p.limit then _ else _) = _
  split
  · simp only [map, List.map_cons, hrecycle]
  · rfl

end Pool

/-! ## 2. One pool and its items -/

/-- A pool, and the items that are in use. -/
structure Custody (α : Type) where
  pool : Pool (Labelled α)
  /-- The items in use, the one taken last first. -/
  held : List (Labelled α) := []
  /-- The number of steps so far. -/
  clock : Nat := 0

/-- What is done with the items of a pool. -/
inductive Handling (α : Type) where
  | take
  /-- Something is done to an item in use. -/
  | use (i : Nat) (f : α → α)
  /-- An item in use is returned. -/
  | drop (i : Nat)

namespace Custody

variable {α : Type}

def new (settings : PoolSettings) (processors : Nat) : Custody α :=
  { pool := .new settings processors }

/-- Does something to the item at `i`, if there is one. -/
def use (c : Custody α) (i : Nat) (f : α → α) : Custody α :=
  { c with
    held := c.held.modify i fun x => { x with item := f x.item }
    clock := c.clock + 1 }

/-- The numbers of all items, in use or waiting. -/
def numbers (c : Custody α) : List (Option Nat) := (c.held ++ c.pool.items).map Labelled.number

theorem numbers_eq (c : Custody α) :
    c.numbers = c.held.map Labelled.number ++ c.pool.items.map Labelled.number := List.map_append

/-- A use of an item does not make it another one. -/
theorem numbers_use (c : Custody α) (i : Nat) (f : α → α) : (c.use i f).numbers = c.numbers := by
  have hheld : (c.use i f).held.map Labelled.number = c.held.map Labelled.number := by
    refine List.ext_getElem? fun j => ?_
    simp only [use, List.getElem?_map, List.getElem?_modify]
    cases c.held[j]? with
    | none => rfl
    | some x =>
      simp only [Option.map_some, Option.map_eq_map]
      split <;> rfl
  rw [numbers_eq, numbers_eq, hheld]
  rfl

variable [Recyclable α]

/-- Takes an item. A new one gets a number. -/
def take (c : Custody α) : Custody α :=
  let (x, rest) := c.pool.get
  { pool := rest
    held := { x with number := some (x.number.getD c.clock) } :: c.held
    clock := c.clock + 1 }

/-- Returns the item at `i`, if there is one. -/
def drop (c : Custody α) (i : Nat) : Custody α :=
  match c.held[i]? with
  | none => { c with clock := c.clock + 1 }
  | some x =>
    { pool := c.pool.put { x with returned := c.clock }
      held := c.held.eraseIdx i
      clock := c.clock + 1 }

def step (c : Custody α) : Handling α → Custody α
  | .take => c.take
  | .use i f => c.use i f
  | .drop i => c.drop i

variable {c : Custody α}

theorem take_of_nil (h : c.pool.items = []) :
    c.take = { c with
      held := { item := Recyclable.fresh, number := some c.clock } :: c.held
      clock := c.clock + 1 } := by
  rw [take, Pool.get, h]
  rfl

theorem take_of_cons {x : Labelled α} {rest : List (Labelled α)} (h : c.pool.items = x :: rest) :
    c.take =
      { pool := { c.pool with items := rest }
        held := { x with number := some (x.number.getD c.clock) } :: c.held
        clock := c.clock + 1 } := by
  rw [take, Pool.get, h]

theorem drop_of_none {i : Nat} (h : c.held[i]? = none) :
    c.drop i = { c with clock := c.clock + 1 } := by
  rw [drop, h]

theorem drop_of_some {i : Nat} {x : Labelled α} (h : c.held[i]? = some x) :
    c.drop i =
      { pool := c.pool.put { x with returned := c.clock }
        held := c.held.eraseIdx i
        clock := c.clock + 1 } := by
  rw [drop, h]

theorem clock_step (c : Custody α) (action : Handling α) :
    (c.step action).clock = c.clock + 1 := by
  cases action with
  | take | use i f => rfl
  | drop i =>
    show (c.drop i).clock = _
    unfold drop
    split <;> rfl

/-- What a step does to the pool. -/
theorem pool_step (c : Custody α) (action : Handling α) :
    (c.step action).pool = c.pool ∨ (c.step action).pool = c.pool.get.2 ∨
      ∃ x, x.returned = c.clock ∧ (c.step action).pool = c.pool.put x := by
  cases action with
  | take => exact .inr (.inl rfl)
  | use i f => exact .inl rfl
  | drop i =>
    show (c.drop i).pool = _ ∨ _ ∨ ∃ x, _ ∧ (c.drop i).pool = _
    unfold drop
    split
    · exact .inl rfl
    · exact .inr (.inr ⟨_, rfl, rfl⟩)

section

variable {β : Type} [Recyclable β] (f : Labelled α → β)

theorem map_pool_take (hfresh : f Recyclable.fresh = Recyclable.fresh) (c : Custody α) :
    c.take.pool.map f = (c.pool.map f).get.2 :=
  congrArg Prod.snd (Pool.get_map hfresh c.pool).symm

theorem map_pool_drop (hrecycle : ∀ settings x,
      f (Recyclable.recycle settings x) = Recyclable.recycle settings (f x))
    {i : Nat} {x : Labelled α} (hx : c.held[i]? = some x) :
    (c.drop i).pool.map f = (c.pool.map f).put (f { x with returned := c.clock }) := by
  rw [drop_of_some hx]
  exact (Pool.put_map hrecycle c.pool _).symm

end

/-- A step makes one item at most, and puts each of the others in one place at most. -/
theorem subperm_numbers_step (h : none ∉ c.numbers) (action : Handling α) :
    List.Subperm (c.step action).numbers (some c.clock :: c.numbers) := by
  cases action with
  | take =>
    show List.Subperm c.take.numbers _
    cases hitems : c.pool.items with
    | nil =>
      rw [take_of_nil hitems]
      exact List.Subperm.refl _
    | cons x rest =>
      -- an item that waited has a number already
      have hnumber : some (x.number.getD c.clock) = x.number := by
        cases hx : x.number with
        | some n => rfl
        | none =>
          refine absurd (List.mem_map.mpr ⟨x, ?_, hx⟩) h
          rw [hitems]
          exact List.mem_append_right _ List.mem_cons_self
      rw [take_of_cons hitems, hnumber, numbers_eq, numbers_eq, hitems]
      exact (List.perm_middle.symm.subperm).cons_right _
  | use i f =>
    show List.Subperm (c.use i f).numbers _
    rw [numbers_use]
    exact (List.Subperm.refl _).cons_right _
  | drop i =>
    show List.Subperm (c.drop i).numbers _
    cases hi : c.held[i]? with
    | none =>
      rw [drop_of_none hi]
      exact (List.Subperm.refl _).cons_right _
    | some x =>
      obtain ⟨hlt, rfl⟩ := List.getElem?_eq_some_iff.mp hi
      have hheld : (c.held[i].number :: (c.held.eraseIdx i).map Labelled.number).Perm
          (c.held.map Labelled.number) :=
        (List.getElem_cons_eraseIdx_perm hlt).map Labelled.number
      rw [drop_of_some hi, numbers_eq, numbers_eq]
      refine List.Subperm.cons_right _ ?_
      unfold Pool.put
      split
      · exact (List.perm_middle.trans (hheld.append_right _)).subperm
      · exact ((List.sublist_cons_self _ _).append_right _).subperm.trans
          (hheld.append_right _).subperm

end Custody

/-! ## 3. What every step preserves -/

/-- The pool keeps to its limit, its items are as they ought to be, and those returned later come
first. -/
structure Pool.Orderly {α : Type} (settings : PoolSettings) (limit : Nat) (good : α → Prop)
    (clock : Nat) (p : Pool (Labelled α)) : Prop where
  settings_eq : p.settings = settings
  limit_eq : p.limit = limit
  size_le : p.size ≤ limit
  recycled : ∀ x ∈ p.items, good x.item
  returned_lt : ∀ x ∈ p.items, x.returned < clock
  newestFirst : p.items.Pairwise fun x y => y.returned < x.returned

/-- No item is in two places, and the pool is in order. -/
structure Custody.Orderly {α : Type} (settings : PoolSettings) (limit : Nat) (good : α → Prop)
    (c : Custody α) : Prop where
  pool : c.pool.Orderly settings limit good c.clock
  numbered : ∀ n ∈ c.numbers, ∃ k < c.clock, n = some k
  nodup : c.numbers.Nodup

section

variable {α : Type} {settings : PoolSettings} {limit clock : Nat} {good : α → Prop}
  {p : Pool (Labelled α)} {x : Labelled α} {c : Custody α}

theorem Pool.Orderly.later (h : p.Orderly settings limit good clock) :
    p.Orderly settings limit good (clock + 1) :=
  { h with returned_lt := fun x hx => Nat.lt_succ_of_lt (h.returned_lt x hx) }

theorem Custody.Orderly.none_notMem (h : c.Orderly settings limit good) : none ∉ c.numbers := by
  intro hmem
  obtain ⟨k, -, hk⟩ := h.numbered _ hmem
  cases hk

theorem Custody.Orderly.clock_notMem (h : c.Orderly settings limit good) :
    some c.clock ∉ c.numbers := by
  intro hmem
  obtain ⟨k, hlt, hk⟩ := h.numbered _ hmem
  cases hk
  exact Nat.lt_irrefl _ hlt

theorem Custody.orderly_new (settings : PoolSettings) (processors : Nat) (good : α → Prop) :
    (Custody.new settings processors).Orderly settings (settings.maxPooled.count processors)
      good where
  pool :=
    { settings_eq := rfl
      limit_eq := rfl
      size_le := Nat.zero_le _
      recycled := List.forall_mem_nil _
      returned_lt := List.forall_mem_nil _
      newestFirst := .nil }
  numbered := List.forall_mem_nil _
  nodup := List.nodup_nil

variable [Recyclable α]

theorem Pool.Orderly.get (h : p.Orderly settings limit good clock) :
    p.get.2.Orderly settings limit good (clock + 1) := by
  unfold Pool.get
  split
  · exact h.later
  · next item rest hitems =>
    have hlength : rest.length ≤ p.items.length := by
      rw [hitems]
      exact Nat.le_succ _
    have hrest : ∀ x ∈ rest, x ∈ p.items := fun x hx => hitems ▸ List.mem_cons_of_mem _ hx
    exact
      { settings_eq := h.settings_eq
        limit_eq := h.limit_eq
        size_le := Nat.le_trans hlength h.size_le
        recycled := fun x hx => h.recycled x (hrest x hx)
        returned_lt := fun x hx => h.later.returned_lt x (hrest x hx)
        newestFirst := (List.pairwise_cons.mp (hitems ▸ h.newestFirst)).2 }

theorem Pool.Orderly.put (h : p.Orderly settings limit good clock)
    (hgood : ∀ item, good (Recyclable.recycle settings item)) (hx : x.returned = clock) :
    (p.put x).Orderly settings limit good (clock + 1) := by
  unfold Pool.put
  split
  · next hlt =>
    refine
      { settings_eq := h.settings_eq
        limit_eq := h.limit_eq
        size_le := Nat.succ_le_of_lt (h.limit_eq ▸ hlt)
        recycled := List.forall_mem_cons.mpr ⟨h.settings_eq ▸ hgood x.item, h.recycled⟩
        returned_lt := List.forall_mem_cons.mpr ⟨?_, h.later.returned_lt⟩
        newestFirst := List.pairwise_cons.mpr ⟨fun y hy => ?_, h.newestFirst⟩ }
    · exact Nat.lt_succ_of_le (Nat.le_of_eq hx)
    · exact Nat.lt_of_lt_of_eq (h.returned_lt y hy) hx.symm
  · exact h.later

/-- Whatever is done, the order is kept. -/
theorem Custody.Orderly.step (h : c.Orderly settings limit good)
    (hgood : ∀ item, good (Recyclable.recycle settings item)) (action : Handling α) :
    (c.step action).Orderly settings limit good := by
  have hnumbers := Custody.subperm_numbers_step h.none_notMem action
  refine ⟨?_, fun n hn => ?_, ?_⟩
  · rw [Custody.clock_step]
    rcases Custody.pool_step c action with hpool | hpool | ⟨x, hx, hpool⟩
    · exact hpool ▸ h.pool.later
    · exact hpool ▸ h.pool.get
    · exact hpool ▸ h.pool.put hgood hx
  · rw [Custody.clock_step]
    rcases List.mem_cons.mp (hnumbers.subset hn) with rfl | hmem
    · exact ⟨c.clock, Nat.lt_succ_self _, rfl⟩
    · obtain ⟨k, hlt, rfl⟩ := h.numbered n hmem
      exact ⟨k, Nat.lt_succ_of_lt hlt, rfl⟩
  · obtain ⟨numbers, hperm, hsub⟩ := hnumbers
    exact hperm.nodup_iff.mp ((List.nodup_cons.mpr ⟨h.clock_notMem, h.nodup⟩).sublist hsub)

/-- The order is kept by any number of steps. -/
theorem Custody.orderly_run (processors : Nat)
    (hgood : ∀ item, good (Recyclable.recycle settings item)) (actions : List (Handling α)) :
    (actions.foldl Custody.step (.new settings processors)).Orderly settings
      (settings.maxPooled.count processors) good := by
  refine List.foldlRecOn actions Custody.step (Custody.orderly_new settings processors good) ?_
  exact fun c h action _ => h.step hgood action

end

/-! ## 4. What is handed out, and what is stored -/

/-- Somebody takes an item: the one that was returned last, which then no longer waits, or a new
one if none waits. -/
structure Custody.Takes {α : Type} [Recyclable α] (c c' : Custody α) : Prop where
  newest : c.pool.items ≠ [] → ∃ x ∈ c.pool.items, (∀ y ∈ c.pool.items, y.returned ≤ x.returned) ∧
    c'.held = x :: c.held ∧ c.pool.items = x :: c'.pool.items
  fresh : c.pool.items = [] → ∃ x : Labelled α, x.item = Recyclable.fresh ∧ x.number ∉ c.numbers ∧
    c'.held = x :: c.held ∧ c'.pool.items = []

/-- The item `x` is returned. It waits from then on exactly if the pool is not full. -/
structure Custody.Stores {α : Type} [Recyclable α] (c c' : Custody α) (i : Nat) (x : Labelled α) :
    Prop where
  held_eq : c'.held = c.held.eraseIdx i
  stored : c.pool.size < c.pool.limit → ∃ y : Labelled α, y.number = x.number ∧
    y.item = Recyclable.recycle c.pool.settings x.item ∧ c'.pool.items = y :: c.pool.items
  dropped : ¬ c.pool.size < c.pool.limit → c'.pool.items = c.pool.items

/-- The pool is in order, and goes on as it ought to. -/
structure Custody.Governed {α : Type} [Recyclable α] (settings : PoolSettings) (limit : Nat)
    (good : α → Prop) (c : Custody α) : Prop where
  orderly : c.Orderly settings limit good
  takes : c.Takes c.take
  stores : ∀ i x, c.held[i]? = some x → c.Stores (c.drop i) i x

section

variable {α : Type} [Recyclable α] {settings : PoolSettings} {limit : Nat} {good : α → Prop}
  {c : Custody α}

theorem Custody.Orderly.takes (h : c.Orderly settings limit good) : c.Takes c.take := by
  constructor
  · intro hne
    obtain ⟨x, rest, hitems⟩ := List.exists_cons_of_ne_nil hne
    have hmem : x ∈ c.pool.items := hitems ▸ List.mem_cons_self
    have hnumber : x.number ∈ c.numbers :=
      List.mem_map.mpr ⟨x, List.mem_append_right _ hmem, rfl⟩
    obtain ⟨k, -, hk⟩ := h.numbered _ hnumber
    have hnewest := List.pairwise_cons.mp (hitems ▸ h.pool.newestFirst)
    refine ⟨x, hmem, fun y hy => ?_, ?_, ?_⟩
    · rcases List.mem_cons.mp (hitems ▸ hy) with rfl | hrest
      · exact Nat.le_refl _
      · exact Nat.le_of_lt (hnewest.1 y hrest)
    · rw [Custody.take_of_cons hitems, hk, Option.getD_some, ← hk]
    · rw [Custody.take_of_cons hitems]
      exact hitems
  · intro hitems
    rw [Custody.take_of_nil hitems]
    exact ⟨_, rfl, h.clock_notMem, rfl, hitems⟩

theorem Custody.stores_drop {i : Nat} {x : Labelled α} (hx : c.held[i]? = some x) :
    c.Stores (c.drop i) i x := by
  rw [Custody.drop_of_some hx]
  refine ⟨rfl, fun hlt => ?_, fun hge => ?_⟩
  · exact ⟨Recyclable.recycle c.pool.settings { x with returned := c.clock }, rfl, rfl,
      by rw [Pool.put, if_pos hlt]⟩
  · show (c.pool.put _).items = _
    rw [Pool.put, if_neg hge]

end

/-! ## 5. The pools of a process -/

/-- A stack as it waits: not too many frames, and no endings. -/
structure EndingStack.Trimmed {ε : Type} (settings : PoolSettings) (stack : EndingStack ε) :
    Prop where
  length_le : stack.frames.length ≤ settings.maxStackFrames
  eq_nil : ∀ frame ∈ stack.frames, frame = []

/-- A response as it waits. -/
structure FieldedResponse.Blank {ω : Type} (r : FieldedResponse ω) : Prop where
  output_eq : r.response.output = .empty
  status_eq : r.response.status = 200
  location_eq : r.response.location = none
  halted_eq : r.response.halted = false
  skipContent_eq : r.fields.skipContent = false
  skipElement_eq : r.fields.skipElement = false
  frame_eq : r.fields.frame = []

inductive PoolKind where
  | endingStacks
  | frames
  | responses
  deriving DecidableEq, Repr

namespace PoolKind

variable {ω : Type}

/-- The items of a pool. Responses have the fields for what callbacks ask for. -/
def Item (ω : Type) : PoolKind → Type
  | endingStacks => EndingStack (Ending ω)
  | frames => Frame ω
  | responses => FieldedResponse ω

instance : (kind : PoolKind) → Recyclable (kind.Item ω)
  | endingStacks => inferInstanceAs (Recyclable (EndingStack (Ending ω)))
  | frames => inferInstanceAs (Recyclable (Frame ω))
  | responses => inferInstanceAs (Recyclable (FieldedResponse ω))

/-- Nothing is left of the use of an item. -/
def Recycled (settings : PoolSettings) : (kind : PoolKind) → kind.Item ω → Prop
  | endingStacks => EndingStack.Trimmed settings
  | frames => fun frame : Frame ω => frame = []
  | responses => FieldedResponse.Blank

theorem recycled_recycle (settings : PoolSettings) (kind : PoolKind) (item : kind.Item ω) :
    kind.Recycled settings (Recyclable.recycle settings item) := by
  cases kind with
  | endingStacks =>
    refine ⟨?_, fun frame hframe => ?_⟩
    · exact Nat.le_trans (Nat.le_of_eq (List.length_map _)) (List.length_take_le _ _)
    · obtain ⟨_, -, rfl⟩ := List.mem_map.mp hframe
      rfl
  | frames => rfl
  | responses => exact ⟨rfl, rfl, rfl, rfl, rfl, rfl, rfl⟩

end PoolKind

/-- Something that is done with the items of one of the pools. -/
structure Operation (ω : Type) where
  kind : PoolKind
  handling : Handling (kind.Item ω)

/-- What the operation does with the items of this pool. -/
def Operation.on? {ω : Type} (kind : PoolKind) (op : Operation ω) :
    Option (Handling (kind.Item ω)) :=
  if h : op.kind = kind then some (h ▸ op.handling) else none

/-- The pools of a process, each with its items in use. -/
abbrev Stock (ω : Type) := (kind : PoolKind) → Custody (kind.Item ω)

namespace Stock

variable {ω : Type}

def new (settings : PoolSettings) (processors : Nat) : Stock ω := fun _ =>
  .new settings processors

def step (stock : Stock ω) (op : Operation ω) : Stock ω :=
  Function.update stock op.kind ((stock op.kind).step op.handling)

/-- The pools after the operations, in this order. -/
def run (settings : PoolSettings) (processors : Nat) (ops : List (Operation ω)) : Stock ω :=
  ops.foldl step (new settings processors)

/-- An operation at one pool does nothing to the others. -/
theorem step_apply (stock : Stock ω) (op : Operation ω) (kind : PoolKind) :
    stock.step op kind = (op.on? kind).elim (stock kind) (stock kind).step := by
  obtain ⟨kind', handling⟩ := op
  by_cases h : kind' = kind
  · subst h
    simp [step, Operation.on?]
  · simp [step, Operation.on?, h, Function.update_of_ne (Ne.symm h)]

theorem foldl_step_apply (stock : Stock ω) (ops : List (Operation ω)) (kind : PoolKind) :
    ops.foldl step stock kind =
      (ops.filterMap (Operation.on? kind)).foldl Custody.step (stock kind) := by
  induction ops generalizing stock with
  | nil => rfl
  | cons op ops ih =>
    rw [List.foldl_cons, ih, step_apply, List.filterMap_cons]
    cases op.on? kind <;> rfl

/-- What happens at one pool depends on what is done with its own items only. -/
theorem run_eq (settings : PoolSettings) (processors : Nat) (ops : List (Operation ω))
    (kind : PoolKind) :
    run settings processors ops kind =
      (ops.filterMap (Operation.on? kind)).foldl Custody.step (.new settings processors) :=
  foldl_step_apply _ ops kind

end Stock

/-! ### Without the labels -/

namespace Pools

variable {ω : Type}

/-- The pools when an item has been taken from one of them. -/
def taken (p : Pools ω) : PoolKind → Pools ω
  | .endingStacks => (p.acquireStack 0).2
  | .frames => p.acquireFrame.2
  | .responses => p.acquireResponse.2

/-- The pools when an item has been returned to one of them. -/
def given (p : Pools ω) : (kind : PoolKind) → kind.Item ω → Pools ω
  | .endingStacks, stack => p.returnStack stack
  | .frames, frame => p.returnFrame frame
  | .responses, r => p.returnResponse r.response

end Pools

namespace Stock

variable {ω : Type}

def bareStack (x : Labelled (PoolKind.endingStacks.Item ω)) : EndingStack (Ending ω) := x.item

def bareFrame (x : Labelled (PoolKind.frames.Item ω)) : Frame ω := x.item

def bareResponse (x : Labelled (PoolKind.responses.Item ω)) : Response :=
  FieldedResponse.response x.item

/-- The pools without the items in use, the labels, and the fields of the responses. -/
def pools (stock : Stock ω) : Pools ω where
  endingStacks := (stock .endingStacks).pool.map bareStack
  frames := (stock .frames).pool.map bareFrame
  responses := (stock .responses).pool.map bareResponse

theorem pools_new (settings : PoolSettings) (processors : Nat) :
    (new settings processors : Stock ω).pools = .new settings processors := rfl

theorem pools_take (stock : Stock ω) (kind : PoolKind) :
    (stock.step ⟨kind, .take⟩).pools = stock.pools.taken kind := by
  cases kind with
  | endingStacks =>
    exact congrArg (fun p => { stock.pools with endingStacks := p })
      (Custody.map_pool_take bareStack rfl (stock .endingStacks))
  | frames =>
    exact congrArg (fun p => { stock.pools with frames := p })
      (Custody.map_pool_take bareFrame rfl (stock .frames))
  | responses =>
    exact congrArg (fun p => { stock.pools with responses := p })
      (Custody.map_pool_take bareResponse rfl (stock .responses))

theorem pools_use (stock : Stock ω) (kind : PoolKind) (i : Nat)
    (f : kind.Item ω → kind.Item ω) : (stock.step ⟨kind, .use i f⟩).pools = stock.pools := by
  cases kind <;> rfl

theorem pools_drop {stock : Stock ω} {kind : PoolKind} {i : Nat} {x : Labelled (kind.Item ω)}
    (h : (stock kind).held[i]? = some x) :
    (stock.step ⟨kind, .drop i⟩).pools = stock.pools.given kind x.item := by
  cases kind with
  | endingStacks =>
    exact congrArg (fun p => { stock.pools with endingStacks := p })
      (Custody.map_pool_drop bareStack (fun _ _ => rfl) h)
  | frames =>
    exact congrArg (fun p => { stock.pools with frames := p })
      (Custody.map_pool_drop bareFrame (fun _ _ => rfl) h)
  | responses =>
    exact congrArg (fun p => { stock.pools with responses := p })
      (Custody.map_pool_drop bareResponse (fun _ _ => rfl) h)

end Stock

/-! ### All pools -/

/-- What is true of each pool of a process, whatever has been taken, used and returned before: it
is in order, it hands out the newest item, and it stores what there is room for. All of this
depends on what has been done with its own items only. -/
theorem stock_governed {ω : Type} (settings : PoolSettings) (processors : Nat)
    (ops : List (Operation ω)) (kind : PoolKind) :
    (Stock.run settings processors ops kind).Governed settings
        (settings.maxPooled.count processors) (kind.Recycled settings) ∧
      Stock.run settings processors ops kind =
        (ops.filterMap (Operation.on? kind)).foldl Custody.step (.new settings processors) := by
  have heq := Stock.run_eq settings processors ops kind
  have horderly := Custody.orderly_run processors (kind.recycled_recycle settings)
    (ops.filterMap (Operation.on? kind))
  rw [heq]
  exact ⟨⟨horderly, horderly.takes, fun i x => Custody.stores_drop⟩, rfl⟩

end HtmlTemplate
