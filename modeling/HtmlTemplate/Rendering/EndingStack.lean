/-!
# Ending stacks

While a component is rendered, every open wrapper has a frame: the endings that
its callback has registered, the last one first. An `EndingStack` holds the
frames, the outermost wrapper's first. It keeps its frames when wrappers are
closed, so that one stack serves many renders.
-/

namespace HtmlTemplate

structure EndingStack (ε : Type) where
  /-- The frames, that of the outermost wrapper first. -/
  frames : List (List ε) := []
  deriving DecidableEq, Repr

namespace EndingStack

variable {ε : Type}

/-- A stack with room for `depth` nested wrappers. -/
def ofDepth (depth : Nat) : EndingStack ε := { frames := List.replicate depth [] }

/-- The number of nested wrappers there is room for. -/
def depthCapacity (s : EndingStack ε) : Nat := s.frames.length

/-- Whether no endings are held. -/
def isClear (s : EndingStack ε) : Bool := s.frames.all List.isEmpty

/-- The stack with room for at least `depth` nested wrappers. -/
def reserve (s : EndingStack ε) (depth : Nat) : EndingStack ε :=
  { frames := s.frames ++ List.replicate (depth - s.frames.length) [] }

/-- The frame of the wrapper with `depth` wrappers around it. -/
def frame? (s : EndingStack ε) (depth : Nat) : Option (List ε) := s.frames[depth]?

/-- The stack with another frame for the wrapper with `depth` wrappers around it. -/
def setFrame (s : EndingStack ε) (depth : Nat) (frame : List ε) : EndingStack ε :=
  { frames := s.frames.set depth frame }

/-- The endings of the `depth` outermost wrappers in the order in which they run
when the wrappers are closed from the inside out. -/
def openEndings (s : EndingStack ε) (depth : Nat) : List ε :=
  (s.frames.take depth).reverse.flatten

/-- The stack with the frames of the `depth` outermost wrappers emptied. -/
def clearOpen (s : EndingStack ε) (depth : Nat) : EndingStack ε :=
  { frames := (s.frames.take depth).map (fun _ => []) ++ s.frames.drop depth }

/-! ## Frames after each operation -/

@[simp] theorem depthCapacity_ofDepth (depth : Nat) :
    (ofDepth depth : EndingStack ε).depthCapacity = depth := by
  simp [ofDepth, depthCapacity]

@[simp] theorem isClear_ofDepth (depth : Nat) : (ofDepth depth : EndingStack ε).isClear = true := by
  simp [ofDepth, isClear]

@[simp] theorem depthCapacity_reserve (s : EndingStack ε) (depth : Nat) :
    (s.reserve depth).depthCapacity = max s.depthCapacity depth := by
  simp only [reserve, depthCapacity, List.length_append, List.length_replicate]
  omega

@[simp] theorem isClear_reserve (s : EndingStack ε) (depth : Nat) :
    (s.reserve depth).isClear = s.isClear := by
  simp [reserve, isClear]

@[simp] theorem depthCapacity_setFrame (s : EndingStack ε) (depth : Nat) (frame : List ε) :
    (s.setFrame depth frame).depthCapacity = s.depthCapacity := by
  simp [setFrame, depthCapacity]

theorem frame?_setFrame (s : EndingStack ε) (depth other : Nat) (frame : List ε) :
    (s.setFrame depth frame).frame? other =
      if depth = other then if depth < s.depthCapacity then some frame else none
      else s.frame? other := by
  grind [setFrame, frame?, depthCapacity]

@[simp] theorem depthCapacity_clearOpen (s : EndingStack ε) (depth : Nat) :
    (s.clearOpen depth).depthCapacity = s.depthCapacity := by
  simp only [clearOpen, depthCapacity, List.length_append, List.length_map, List.length_take,
    List.length_drop]
  omega

/-! ## What is known of every ending -/

/-- Every ending on the stack has the property. -/
def Each (p : ε → Prop) (s : EndingStack ε) : Prop := ∀ frame ∈ s.frames, ∀ ending ∈ frame, p ending

namespace Each

variable {p : ε → Prop} {s : EndingStack ε}

theorem ofDepth (depth : Nat) : (EndingStack.ofDepth depth : EndingStack ε).Each p := by
  intro frame hframe ending hending
  rw [List.eq_of_mem_replicate hframe] at hending
  cases hending

theorem setFrame {frame : List ε} (h : s.Each p) (depth : Nat)
    (hframe : ∀ ending ∈ frame, p ending) : (s.setFrame depth frame).Each p := by
  intro other hother
  rcases List.mem_or_eq_of_mem_set hother with hmem | rfl
  · exact h other hmem
  · exact hframe

theorem of_frame {frame : List ε} {depth : Nat} (h : s.Each p)
    (hf : s.frame? depth = some frame) : ∀ ending ∈ frame, p ending :=
  h frame (List.mem_of_getElem? hf)

theorem openEndings (h : s.Each p) (depth : Nat) : ∀ ending ∈ s.openEndings depth, p ending := by
  intro ending hending
  obtain ⟨frame, hframe, hmem⟩ := List.mem_flatten.mp hending
  exact h frame (List.mem_of_mem_take (List.mem_reverse.mp hframe)) ending hmem

end Each

end EndingStack

end HtmlTemplate
