import HtmlTemplate.Proofs.Rendering.Steps

/-!
# The frames of open wrappers

A walk uses its ending stack in one way only: the frames of the open wrappers are in use,
and all others are empty. `Cursor.Holding` says so, and gives the frames as a list, that
of the innermost wrapper first.

Before a walk no frame is in use: the stack is `Ready`.

Results:
1. `Holding.enter`, `Holding.leave`: a wrapper is opened, or the innermost one is closed.
2. `Holding.pending_eq`: the endings that are handed to the caller.
3. `Holding.isClear_cleared`: no ending is left on the stack then.
-/

namespace HtmlTemplate

variable {ω : Type}

/-! ## 1. Stacks that are ready -/

/-- No ending is held, and there is room for `depth` nested wrappers. -/
structure EndingStack.Ready {ε : Type} (stack : EndingStack ε) (depth : Nat) : Prop where
  isClear : stack.isClear = true
  depth_le : depth ≤ stack.depthCapacity

namespace EndingStack

variable {ε : Type} {stack : EndingStack ε} {depth : Nat}

theorem ready_ofDepth (depth : Nat) : (ofDepth depth : EndingStack ε).Ready depth :=
  ⟨isClear_ofDepth depth, Nat.le_of_eq (depthCapacity_ofDepth depth).symm⟩

/-- A clear stack is a number of empty frames. -/
theorem Ready.frames_eq (h : stack.Ready depth) :
    stack.frames = List.replicate stack.frames.length [] :=
  List.eq_replicate_iff.mpr ⟨rfl, fun frame hmem =>
    List.isEmpty_iff.mp (List.all_eq_true.mp h.isClear frame hmem)⟩

end EndingStack

/-! ## 2. Stacks in use -/

namespace Cursor

/-- Inside of one more wrapper, whose callback has registered the endings. -/
def enter (cur : Cursor ω) (endings : List (Ending ω)) : Cursor ω :=
  { cur with depth := cur.depth + 1, stack := cur.stack.setFrame cur.depth endings }

/-- Behind the end of a wrapper with `depth` wrappers around it. -/
def leave (cur : Cursor ω) (depth : Nat) : Cursor ω :=
  { cur.next with depth := depth, stack := cur.stack.setFrame depth [] }

/-- The endings of all open wrappers, those of the innermost one first. -/
def pending (cur : Cursor ω) : List (Ending ω) := cur.stack.openEndings cur.depth

/-- The stack once the endings of all open wrappers are taken off. -/
def cleared (cur : Cursor ω) : EndingStack (Ending ω) := cur.stack.clearOpen cur.depth

/-- The frames of the open wrappers, that of the innermost one first. No other frame holds
an ending. -/
structure Holding (cur : Cursor ω) (frames : List (List (Ending ω))) : Prop where
  depth_eq : cur.depth = frames.length
  frames_eq : ∃ n, cur.stack.frames = frames.reverse ++ List.replicate n []

namespace Holding

variable {cur cur' : Cursor ω} {frames : List (List (Ending ω))} {frame endings : List (Ending ω)}
  {depth : Nat}

theorem congr (h : cur.Holding frames) (hd : cur'.depth = cur.depth)
    (hs : cur'.stack = cur.stack) : cur'.Holding frames :=
  ⟨hd.trans h.depth_eq, hs ▸ h.frames_eq⟩

theorem next (h : cur.Holding frames) : cur.next.Holding frames := h.congr rfl rfl

theorem moveTo (h : cur.Holding frames) (place : Place) : (cur.moveTo place).Holding frames :=
  h.congr rfl rfl

/-- The frame for the next wrapper is empty. -/
theorem frame_eq_nil (h : cur.Holding frames) (hf : cur.stack.frame? cur.depth = some frame) :
    frame = [] := by
  obtain ⟨n, hs⟩ := h.frames_eq
  rw [EndingStack.frame?, hs, h.depth_eq, ← List.length_reverse,
    List.getElem?_append_right (Nat.le_refl _)] at hf
  exact List.eq_of_mem_replicate (List.mem_of_getElem? hf)

theorem enter (h : cur.Holding frames) (hf : cur.stack.frame? cur.depth = some frame)
    (endings : List (Ending ω)) : (cur.enter endings).Holding (endings :: frames) := by
  obtain ⟨n, hs⟩ := h.frames_eq
  have hlt : cur.depth < cur.stack.frames.length := (List.getElem?_eq_some_iff.mp hf).1
  rw [hs, h.depth_eq, List.length_append, List.length_reverse, List.length_replicate] at hlt
  obtain ⟨n, rfl⟩ : ∃ n', n = n' + 1 := ⟨n - 1, by omega⟩
  refine ⟨congrArg (· + 1) h.depth_eq, n, ?_⟩
  show cur.stack.frames.set cur.depth endings = _
  rw [hs, h.depth_eq, ← List.length_reverse, List.set_append_right _ _ (Nat.le_refl _),
    Nat.sub_self, List.replicate_succ, List.set_cons_zero, List.reverse_cons, List.append_assoc]
  rfl

/-- The frame of the innermost wrapper. -/
theorem frame?_eq (h : cur.Holding (endings :: frames)) (hd : cur.depth = depth + 1) :
    cur.stack.frame? depth = some endings := by
  obtain ⟨n, hs⟩ := h.frames_eq
  have hlen : depth = frames.reverse.length := by
    rw [List.length_reverse]
    exact Nat.succ.inj (hd.symm.trans h.depth_eq)
  rw [EndingStack.frame?, hs, List.reverse_cons, List.append_assoc, hlen,
    List.getElem?_append_right (Nat.le_refl _), Nat.sub_self]
  rfl

theorem leave (h : cur.Holding (endings :: frames)) (hd : cur.depth = depth + 1) :
    (cur.leave depth).Holding frames := by
  obtain ⟨n, hs⟩ := h.frames_eq
  have hlen : depth = frames.length := Nat.succ.inj (hd.symm.trans h.depth_eq)
  refine ⟨hlen, n + 1, ?_⟩
  show cur.stack.frames.set depth [] = _
  rw [hs, List.reverse_cons, List.append_assoc, hlen, ← List.length_reverse,
    List.set_append_right _ _ (Nat.le_refl _), Nat.sub_self]
  rfl

theorem exists_cons (h : cur.Holding frames) (hd : cur.depth = depth + 1) :
    ∃ endings rest, frames = endings :: rest := by
  cases frames with
  | nil => cases hd.symm.trans h.depth_eq
  | cons endings rest => exact ⟨endings, rest, rfl⟩

theorem pending_eq (h : cur.Holding frames) : cur.pending = frames.flatten := by
  obtain ⟨n, hs⟩ := h.frames_eq
  rw [pending, EndingStack.openEndings, hs, h.depth_eq, ← List.length_reverse, List.take_left,
    List.reverse_reverse]

/-- Once the endings of the open wrappers are taken off, the stack is clear. -/
theorem isClear_cleared (h : cur.Holding frames) : cur.cleared.isClear = true := by
  obtain ⟨n, hs⟩ := h.frames_eq
  rw [cleared, EndingStack.isClear, EndingStack.clearOpen, hs, h.depth_eq, ← List.length_reverse,
    List.take_left, List.drop_left]
  simp

end Holding

end Cursor

end HtmlTemplate
