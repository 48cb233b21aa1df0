import HtmlTemplate.Proofs.Rendering.Running

/-!
# The steps of a walk

How a walk gets from one marker to the next while no jump is planned: it writes
the literal bytes before the marker, and then does what the marker says. All of
it is said about `Component.outcome`, the outcome of a walk without its stack.

Results:
1. `outcome_eq_follow`: a walk is a step and what follows it.
2. `outcome_of_marker`: a walk that comes to a marker.
3. `outcome_of_exit`: a walk that comes to its end.
-/

namespace HtmlTemplate

open Render

variable {ω δ α β : Type}

/-! ## 1. Literal bytes -/

namespace Template

/-- The session after literal bytes have been written. -/
def wrote (t : Template ω δ) (start stop : Nat) (s : Session ω) : Session ω :=
  { s with response := s.response.writeRawBytes (t.html.extract start stop) }

@[simp] theorem halted_wrote (t : Template ω δ) (start stop : Nat) (s : Session ω) :
    (t.wrote start stop s).response.halted = s.response.halted := by
  simp [wrote]

@[simp] theorem wrote_self (t : Template ω δ) (start : Nat) (s : Session ω) :
    t.wrote start start s = s := by
  simp [wrote]

theorem wrote_wrote (t : Template ω δ) {start mid stop : Nat} (h : start ≤ mid) (h' : mid ≤ stop)
    (s : Session ω) : t.wrote mid stop (t.wrote start mid s) = t.wrote start stop s := by
  simp only [wrote]
  rw [← Response.writeRawBytes_append, ← ByteArray.extract_eq_extract_append_extract mid h h']

theorem writeLiteral_run (t : Template ω δ) {start stop : Nat} (h : start ≤ stop)
    (hs : stop ≤ t.html.size) (s : Session ω) :
    t.writeLiteral start stop s = .ok ((), t.wrote start stop s) := by
  rw [t.writeLiteral_eq h hs]
  rfl

theorem advance_run (t : Template ω δ) (cur : Cursor ω) {stop : Nat} (h : cur.offset ≤ stop)
    (hs : stop ≤ t.html.size) (s : Session ω) :
    t.advance cur stop s = .ok ({ cur with offset := stop }, t.wrote cur.offset stop s) :=
  bind_of_ok (t.writeLiteral_run h hs s)

/-- The start tags passed on the way to `stop` divide the literal bytes that are
written into pieces. -/
theorem passTags_run (t : Template ω δ) {stop : Nat} (hs : stop ≤ t.html.size)
    (es : List Element) (cur : Cursor ω) (h : cur.offset ≤ stop) (s : Session ω) :
    ∃ elements tagMark,
      (do let cur ← t.passTags stop es cur; t.advance cur stop) s =
        .ok ({ cur with offset := stop, elements := elements, tagMark := tagMark },
          t.wrote cur.offset stop s) := by
  induction es generalizing cur s with
  | nil => exact ⟨[], cur.tagMark, t.advance_run { cur with elements := [] } h hs s⟩
  | cons e rest ih =>
    unfold passTags
    split
    · next hlt =>
      split
      · next hle =>
        -- Up to the start tag first, then from there to `stop`.
        have hadv := t.advance_run cur hle (Nat.le_trans (Nat.le_of_lt hlt) hs) s
        obtain ⟨elements, tagMark, hrest⟩ := ih
          { cur with
            offset := e.openStart
            tagMark := some
              { start := e.openStart
                size := (t.wrote cur.offset e.openStart s).response.size } }
          (Nat.le_of_lt hlt) (t.wrote cur.offset e.openStart s)
        refine ⟨elements, tagMark, ?_⟩
        rw [bind_assoc, bind_of_ok hadv]
        rw [t.wrote_wrote hle (Nat.le_of_lt hlt)] at hrest
        exact hrest
      · exact ih cur h s
    · exact ⟨e :: rest, cur.tagMark,
        t.advance_run { cur with elements := e :: rest } h hs s⟩

end Template

/-! ## 2. Steps -/

namespace Component

variable {c : Component ω δ} {data : δ}

/-- The outcome of a walk that goes on from the cursor. -/
def outcome (c : Component ω δ) (data : δ) (cur : Cursor ω) : Render ω (Outcome ω) :=
  Prod.fst <$> c.loop data cur

/-- The outcome of a walk after a step from the cursor. -/
def follow (c : Component ω δ) (data : δ) (cur : Cursor ω) : Next ω → Render ω (Outcome ω)
  | .stop outcome _ => pure outcome
  | .goto cur' =>
    if c.remaining cur' < c.remaining cur then c.outcome data cur' else throw (.stuck cur.marker)

theorem outcome_eq_follow (c : Component ω δ) (data : δ) (cur : Cursor ω) :
    c.outcome data cur = c.step data cur >>= c.follow data cur := by
  unfold outcome
  rw [loop, map_bind]
  congr 1
  funext next
  cases next with
  | stop outcome stack => rfl
  | goto cur' =>
    simp only [follow]
    split
    · rfl
    · funext s
      rfl

/-- The size to which the output is cut back if the element is dropped: that at its
start tag, if the start tag has been passed. -/
def sizeBefore (cur : Cursor ω) (e : Element) : Render ω Nat :=
  match cur.tagMark with
  | some mark => if mark.start = e.openStart then pure mark.size else Render.outputSize
  | none => Render.outputSize

theorem dropElement_eq (c : Component ω δ) (cur : Cursor ω) (e : Element) :
    c.dropElement cur e = (do
      let size ← sizeBefore cur e
      Render.modifyResponse (·.truncate size)
      let target : Place := { marker := e.nextMarker, offset := e.closeEnd }
      if c.part = .preContent ∧ e.containsContent then c.swallow cur target
      else return .goto (cur.moveTo target)) := by
  unfold dropElement sizeBefore
  cases cur.tagMark with
  | none => rfl
  | some mark =>
    by_cases h : mark.start = e.openStart
    · simp only [h, if_true]
    · simp only [h, if_false]

/-- A step that goes on to a marker further on. -/
theorem follow_goto {cur cur' : Cursor ω} (hj : cur.jump = none) (hj' : cur'.jump = none)
    (hm : cur.marker < cur'.marker) (he : cur.marker < c.exit.marker) :
    c.follow data cur (.goto cur') = c.outcome data cur' := by
  refine if_pos ?_
  simp only [remaining, hj, hj', Option.isSome_none]
  simp only [Bool.false_eq_true, if_false]
  omega

/-- A walk that comes to a marker writes the literal bytes before it, and does what
it says. -/
theorem outcome_of_marker {cur : Cursor ω} {m : Marker ω δ} {s : Session ω} (hj : cur.jump = none)
    (he : cur.marker < c.exit.marker) (hm : c.template.markers[cur.marker]? = some m)
    (hp : cur.offset ≤ m.position) (hs : m.position ≤ c.template.html.size)
    (hr : s.response.halted = false) :
    ∃ elements tagMark,
      c.outcome data cur s =
        (c.act data { cur with offset := m.position, elements := elements, tagMark := tagMark } m
          >>= c.follow data cur) (c.template.wrote cur.offset m.position s) := by
  obtain ⟨elements, tagMark, hpass⟩ := c.template.passTags_run hs cur.elements cur hp s
  refine ⟨elements, tagMark, ?_⟩
  rw [outcome_eq_follow]
  have hmarker : c.template.marker cur.marker = (pure m : Render ω (Marker ω δ)) := by
    simp [Template.marker, hm]
  have hvisit : c.step data cur s =
      c.act data { cur with offset := m.position, elements := elements, tagMark := tagMark } m
        (c.template.wrote cur.offset m.position s) := by
    simp only [step, hj, visit, he, if_true, hmarker, pure_bind]
    rw [← bind_assoc, bind_of_ok hpass]
    simp [hr, hj]
  exact bind_eq_of_eq hvisit

/-- A walk that comes to its end writes the literal bytes that are left. -/
theorem outcome_of_exit {cur : Cursor ω} {s : Session ω} {carried : List (Ending ω)}
    {stack : EndingStack (Ending ω)} (hj : cur.jump = none) (he : c.exit.marker ≤ cur.marker)
    (hp : cur.offset ≤ c.exit.offset) (hs : c.exit.offset ≤ c.template.html.size)
    (hr : s.response.halted = false)
    (hh : c.handOver { cur with offset := c.exit.offset } = pure (carried, stack)) :
    c.outcome data cur s =
      .ok (.finished carried, c.template.wrote cur.offset c.exit.offset s) := by
  have hfinish : c.step data cur s = .ok (.stop (.finished carried) stack,
      c.template.wrote cur.offset c.exit.offset s) := by
    simp only [step, hj, visit, Nat.not_lt_of_le he, if_false, finish]
    rw [bind_of_ok (c.template.advance_run cur hp hs s)]
    simp only [isHalted_bind, Template.halted_wrote, hr, Bool.false_eq_true, if_false, hh]
    rfl
  rw [outcome_eq_follow, bind_of_ok hfinish]
  rfl

end Component

end HtmlTemplate
