import HtmlTemplate.Proofs.Rendering.Faults
import HtmlTemplate.Proofs.Rendering.Steps
import HtmlTemplate.Proofs.Template.Parts

/-!
# Walks do not fail

A walk over a part of a well-formed template asks for literal bytes, markers,
elements and frames that exist, and it ends with no wrapper open but in a part
before a content marker.

Results:
1. `Component.Holds`: what is known of the cursor of a walk.
2. `meets_act`, `meets_step`: each step keeps it and moves the cursor forward.
3. `meets_run`: a run does not fail. If it drops the content marker, then the part
   behind that may be resumed where it says.
4. `safe_render`, `Wrapper.safe_render`, `WrapperRender.safe_wrap`: what the library
   renders with a run.
-/

namespace HtmlTemplate

open Render

variable {ω δ : Type}

/-! ## 1. Cursors -/

/-- The place that the cursor has come to. -/
def Cursor.place (cur : Cursor ω) : Place := { marker := cur.marker, offset := cur.offset }

/-- The callback at a marker does not fail. -/
def Action.Safe (data : δ) : Action ω δ → Prop
  | .plain run => Render.Safe (run data)
  | .attributes run _ => AttributeRender.Safe (run data)
  | .wrapperStart run _ => WrapperRender.Safe (run data)
  | .wrapperEnd _ => True

/-- No callback of the template fails. -/
def Template.Safe (t : Template ω δ) (data : δ) : Prop :=
  ∀ (i : Nat) (m : Marker ω δ), t.markers[i]? = some m → m.action.Safe data

namespace Component

variable {c : Component ω δ} {data : δ} {cur cur₀ : Cursor ω} {content? : Option Place}
  {m : Marker ω δ} {e : Element} {index : Nat}

/-- The jump over the content of an element. -/
def jumpOver (c : Component ω δ) (e : Element) : Jump :=
  { start := e.openEnd
    target := { marker := e.nextMarker, offset := e.closeStart }
    swallows := c.part = .preContent && e.containsContent }

/-- The place stands in the start tag of the element. -/
structure InTag (c : Component ω δ) (p : Place) (index : Nat) (e : Element) : Prop where
  element : c.template.elements[index]? = some e
  start_lt : e.openStart < p.offset
  marker_le : p.marker ≤ e.firstInnerMarker

/-- What is known of the cursor of a walk: it stands in the component, as many frames
are in use as wrappers are open, and a jump is planned only in a start tag. -/
structure Holds (c : Component ω δ) (cur : Cursor ω) : Prop where
  cuts : c.template.Cuts cur.place
  entry_le : c.entry.marker ≤ cur.marker
  marker_le : cur.marker ≤ c.exit.marker
  offset_le : cur.offset ≤ c.exit.offset
  depth_eq : cur.depth = (c.opened cur.marker).length
  stack : cur.stack.Safe c.maxNesting
  jump : ∀ jump, cur.jump = some jump →
    ∃ index e, c.InTag cur.place index e ∧ cur.offset ≤ e.openEnd ∧ jump = c.jumpOver e

/-- The cursor stands at a marker, up to which literal bytes are written. -/
structure Stands (c : Component ω δ) (cur : Cursor ω) (m : Marker ω δ) : Prop extends
    Holds c cur where
  marker_lt : cur.marker < c.exit.marker
  marker_eq : c.template.markers[cur.marker]? = some m
  offset_eq : cur.offset = m.position
  /-- A marker behind the start of a planned jump is not visited. -/
  before_jump : ∀ jump, cur.jump = some jump → m.position < jump.start

/-- A walk ends with endings that do not fail, and drops the content marker only if the
part behind it may be resumed. -/
def Sound (c : Component ω δ) : Outcome ω → Prop
  | .halted => True
  | .finished carried => ∀ ending ∈ carried, Render.Safe ending
  | .swallowed resume carried =>
    (∀ ending ∈ carried, Render.Safe ending) ∧ c.part = .preContent ∧
      c.template.Resumable c.exit resume

/-- What is known after a step from the cursor `cur`. -/
def SoundNext (c : Component ω δ) (cur : Cursor ω) : Next ω → Prop
  | .goto cur' => c.Holds cur' ∧ c.remaining cur' < c.remaining cur
  | .stop outcome _ => c.Sound outcome

/-- A cursor behind the next marker has fewer steps to go. -/
theorem remaining_lt (he : cur₀.marker < c.exit.marker) (hm : cur₀.marker < cur.marker) :
    c.remaining cur < c.remaining cur₀ := by
  unfold remaining
  split <;> split <;> omega

/-- So has a cursor that has jumped. -/
theorem remaining_lt_of_jump (hj₀ : cur₀.jump.isSome = true) (hj : cur.jump = none)
    (hm : cur₀.marker ≤ cur.marker) : c.remaining cur < c.remaining cur₀ := by
  simp only [remaining, hj₀, hj, Option.isSome_none, Bool.false_eq_true, if_false, if_true]
  omega

/-! ## 2. Ends of walks -/

theorem meets_handOver (hs : cur.stack.Safe c.maxNesting)
    (hd : c.part ≠ .preContent → cur.depth = 0) :
    (c.handOver cur).Meets fun p => ∀ ending ∈ p.1, Render.Safe ending := by
  unfold handOver
  split
  · refine meets_pure ?_
    intro ending hending
    cases hending
  · next hne =>
    split
    · exact meets_pure (hs.openEndings cur.depth)
    · next hpart => exact absurd (hd hpart) hne

theorem meets_swallow {resume : Place} (hs : cur.stack.Safe c.maxNesting)
    (hpart : c.part = .preContent) (hr : c.template.Resumable c.exit resume) :
    (c.swallow cur resume).Meets (c.SoundNext cur₀) :=
  meets_bind (meets_handOver hs fun hne => absurd hpart hne) fun _ hp =>
    meets_pure ⟨hp, hpart, hr⟩

theorem meets_proceed (h : c.Holds cur) (hr : c.remaining cur < c.remaining cur₀) :
    (proceed cur).Meets (c.SoundNext cur₀) :=
  meets_unless_halted trivial (meets_pure ⟨h, hr⟩)

theorem meets_advance {t : Template ω δ} {stop : Nat} (h : cur.offset ≤ stop)
    (hs : stop ≤ t.html.size) :
    (t.advance cur stop).Meets fun cur' => cur' = { cur with offset := stop } :=
  meets_of_ok fun s => ⟨_, _, t.advance_run cur h hs s, rfl⟩

theorem meets_passTags {t : Template ω δ} {stop : Nat} {elements : List Element}
    (h : cur.offset ≤ stop) (hs : stop ≤ t.html.size) :
    (do let cur ← t.passTags stop elements cur; t.advance cur stop).Meets fun cur' =>
      ∃ elements tagMark,
        cur' = { cur with offset := stop, elements := elements, tagMark := tagMark } := by
  refine meets_of_ok ?_
  intro s
  obtain ⟨elements', tagMark, hrun⟩ := t.passTags_run hs elements cur h s
  exact ⟨_, _, hrun, elements', tagMark, rfl⟩

theorem meets_finish (hw : c.WellFormed content?) (h : c.Holds cur)
    (he : cur.marker = c.exit.marker) : (c.finish cur).Meets (c.SoundNext cur₀) := by
  refine meets_bind (meets_advance h.offset_le hw.cuts_exit.offset_le) ?_
  intro cur' hcur'
  subst hcur'
  refine meets_unless_halted trivial (meets_bind (meets_handOver h.stack fun hpart => ?_)
    fun p hp => meets_pure hp)
  show cur.depth = 0
  rw [h.depth_eq, he, hw.opened_exit hpart]
  rfl

/-! ## 3. Elements -/

/-- In the start tag of an element the same wrappers are open as behind it. -/
theorem InTag.openBefore_nextMarker (ht : c.InTag cur.place index e) (hw : c.WellFormed content?)
    (h : c.Holds cur) :
    openBefore c.template.markers e.nextMarker = openBefore c.template.markers cur.marker :=
  (hw.closed index e ht.element).openBefore_nextMarker ht.marker_le fun j m hj hm =>
    Nat.lt_of_lt_of_le ht.start_lt (h.cuts.ahead j m hj hm)

/-- The walk goes on behind an element, or at its end tag. -/
theorem InTag.holds_moveTo (ht : c.InTag cur.place index e) (hw : c.WellFormed content?)
    (h : c.Holds cur) (hout : ¬(c.part = .preContent ∧ e.containsContent = true)) {offset : Nat}
    (ho : offset ≤ e.closeEnd) :
    c.Holds (cur.moveTo { marker := e.nextMarker, offset := offset }) := by
  have hclosed := hw.closed index e ht.element
  have hle := hw.ends_within ht.element (Nat.lt_of_lt_of_le ht.start_lt h.offset_le) hout
  refine
    { cuts := hw.cuts_element ht.element ho
      entry_le := Nat.le_trans h.entry_le (Nat.le_trans ht.marker_le hclosed.inner_le_next)
      marker_le := hle.1
      offset_le := Nat.le_trans ho hle.2
      depth_eq := ?_
      stack := h.stack
      jump := fun _ hj => by cases hj }
  show cur.depth = (c.opened e.nextMarker).length
  rw [opened_congr (ht.openBefore_nextMarker hw h), h.depth_eq]

/-- The content marker is dropped with an element. -/
theorem InTag.resumable (ht : c.InTag cur.place index e) (hw : c.WellFormed content?)
    (h : c.Holds cur) (hpart : c.part = .preContent) (hc : e.containsContent = true) {offset : Nat}
    (hs : e.closeStart ≤ offset) (ho : offset ≤ e.closeEnd) :
    c.template.Resumable c.exit { marker := e.nextMarker, offset := offset } := by
  have hopen := ht.openBefore_nextMarker hw h
  have hcontent := hw.content_eq hpart
  subst hcontent
  exact hw.resumable_of_element ht.element hc ht.marker_le hopen hs ho

theorem meets_dropElement (hw : c.WellFormed content?) (h : c.Holds cur)
    (ht : c.InTag cur.place index e) (he : cur.marker < c.exit.marker)
    (hlt : cur.marker < e.firstInnerMarker) :
    (c.dropElement cur e).Meets (c.SoundNext cur) := by
  have hclosed := hw.closed index e ht.element
  have hsize : Render.Safe (sizeBefore cur e) := by
    unfold sizeBefore
    split
    · split
      · exact meets_pure trivial
      · exact safe_outputSize
    · exact safe_outputSize
  rw [dropElement_eq]
  refine meets_bind_safe hsize fun size => meets_bind_safe (safe_modifyResponse _) fun _ => ?_
  simp only
  split
  · next hin =>
    exact meets_swallow h.stack hin.1
      (ht.resumable hw h hin.1 hin.2 hclosed.closeStart_le (Nat.le_refl _))
  · next hout =>
    exact meets_pure ⟨ht.holds_moveTo hw h hout (Nat.le_refl _),
      remaining_lt he (Nat.lt_of_lt_of_le hlt hclosed.inner_le_next)⟩

theorem meets_takeJump (hw : c.WellFormed content?) (h : c.Holds cur) {jump : Jump}
    (hj : cur.jump = some jump) : (c.takeJump cur jump).Meets (c.SoundNext cur) := by
  obtain ⟨index, e, ht, hend, rfl⟩ := h.jump jump hj
  have hclosed := hw.closed index e ht.element
  have hclose : e.closeStart ≤ e.closeEnd := hclosed.closeStart_le
  refine meets_bind (meets_advance hend ?_) fun cur' hcur' => ?_
  · exact Nat.le_trans hclosed.openEnd_le (Nat.le_trans hclose hclosed.closeEnd_le)
  subst hcur'
  split
  · next hin =>
    obtain ⟨hpart, hc⟩ : c.part = .preContent ∧ e.containsContent = true := by
      simpa [jumpOver] using hin
    exact meets_swallow h.stack hpart (ht.resumable hw h hpart hc (Nat.le_refl _) hclose)
  · next hin =>
    have hout : ¬(c.part = .preContent ∧ e.containsContent = true) := by
      simpa [jumpOver] using hin
    refine meets_pure ⟨ht.holds_moveTo hw h hout hclose, remaining_lt_of_jump (by simp [hj]) rfl ?_⟩
    exact Nat.le_trans ht.marker_le hclosed.inner_le_next

/-! ## 4. Markers -/

theorem marker_planJump (cur : Cursor ω) (e : Element) :
    (c.planJump cur e).marker = cur.marker + 1 := by
  unfold planJump
  split <;> rfl

namespace Stands

variable (h : c.Stands cur m)
include h

/-- No jump is planned where a wrapper starts or ends. -/
theorem jump_eq_none (hw : c.WellFormed content?) (hb : m.boundsWrapper = true) :
    cur.jump = none := by
  cases hj : cur.jump with
  | none => rfl
  | some jump =>
    have hlt := h.before_jump jump hj
    obtain ⟨index, e, ht, -, rfl⟩ := h.jump jump hj
    -- A jump is planned in a start tag, where no wrapper starts or ends.
    have hin := (hw.closed index e ht.element).unmarked cur.marker m h.marker_eq
      (h.offset_eq ▸ ht.start_lt) hlt
    rw [hb] at hin
    cases hin

/-- The cursor behind the marker, with as many frames in use as wrappers are open there. -/
theorem holds_next (hw : c.WellFormed content?) {depth : Nat} {stack : EndingStack (Ending ω)}
    {jump? : Option Jump} (hd : depth = (c.opened (cur.marker + 1)).length)
    (hs : stack.Safe c.maxNesting)
    (hj : ∀ jump, jump? = some jump → ∃ index e, c.InTag cur.place.next index e ∧
      cur.offset ≤ e.openEnd ∧ jump = c.jumpOver e) :
    c.Holds { cur.next with depth := depth, stack := stack, jump := jump? } where
  cuts := by
    have hcuts := hw.cuts_succ h.marker_eq
    rwa [← h.offset_eq] at hcuts
  entry_le := Nat.le_succ_of_le h.entry_le
  marker_le := h.marker_lt
  offset_le := h.offset_le
  depth_eq := hd
  stack := hs
  jump := hj

/-- A planned jump stays planned behind the marker. -/
theorem jump_next (hw : c.WellFormed content?) (jump : Jump) (hj : cur.jump = some jump) :
    ∃ index e, c.InTag cur.place.next index e ∧ cur.offset ≤ e.openEnd ∧ jump = c.jumpOver e := by
  have hlt := h.before_jump jump hj
  obtain ⟨index, e, ht, hend, rfl⟩ := h.jump jump hj
  have hin := ((hw.closed index e ht.element).inner_iff cur.marker m h.marker_eq).mpr hlt
  exact ⟨index, e, ⟨ht.element, ht.start_lt, hin⟩, hend, rfl⟩

/-- The cursor behind a marker that neither starts nor ends a wrapper. -/
theorem holds_next_inner (hw : c.WellFormed content?) (hb : m.boundsWrapper = false) :
    c.Holds cur.next :=
  h.holds_next hw (by rw [opened_succ_of_not_boundsWrapper h.marker_eq hb, h.depth_eq]) h.stack
    (h.jump_next hw)

theorem meets_runPlain (hw : c.WellFormed content?) (hb : m.boundsWrapper = false)
    {run : Render ω Unit} (hrun : Render.Safe run) : (runPlain cur run).Meets (c.SoundNext cur) :=
  meets_bind_safe hrun fun _ =>
    meets_proceed (h.holds_next_inner hw hb) (remaining_lt h.marker_lt (Nat.lt_succ_self _))

/-- An attribute marker stands in the start tag of its element. -/
theorem inTag (hw : c.WellFormed content?) {onTag : δ → AttributeRender ω Unit}
    (ha : m.action = .attributes onTag index) (he : c.template.elements[index]? = some e) :
    c.InTag cur.place index e ∧ cur.offset ≤ e.openEnd ∧ cur.marker < e.firstInnerMarker := by
  obtain ⟨e', he', hpos, hin⟩ := hw.owner cur.marker m onTag index h.marker_eq ha
  cases he.symm.trans he'
  have hstart : e.openStart < cur.offset := h.offset_eq ▸ hpos
  refine ⟨⟨he, hstart, Nat.le_of_lt hin⟩, ?_, hin⟩
  rw [h.offset_eq]
  exact Nat.le_of_lt (((hw.closed index e he).inner_iff _ m h.marker_eq).mp hin)

/-- Behind an attribute marker whose callback asked to drop the content, the cursor still
stands in the start tag. -/
theorem holds_planJump (hw : c.WellFormed content?) {onTag : δ → AttributeRender ω Unit}
    (ha : m.action = .attributes onTag index) (he : c.template.elements[index]? = some e) :
    c.Holds (c.planJump cur e) := by
  have hb : m.boundsWrapper = false := by simp [Marker.boundsWrapper, ha]
  obtain ⟨ht, hend, hin⟩ := h.inTag hw ha he
  unfold planJump
  split
  · refine h.holds_next hw ?_ h.stack ?_
    · rw [opened_succ_of_not_boundsWrapper h.marker_eq hb]
      exact h.depth_eq
    · rintro jump ⟨⟩
      exact ⟨index, e, ⟨he, ht.start_lt, hin⟩, hend, rfl⟩
  · exact h.holds_next_inner hw hb

theorem meets_runAttributes (hw : c.WellFormed content?) {onTag : δ → AttributeRender ω Unit}
    (ha : m.action = .attributes onTag index) (he : c.template.elements[index]? = some e)
    {run : AttributeRender ω Unit} (hrun : AttributeRender.Safe run) :
    (c.runAttributes cur run e).Meets (c.SoundNext cur) := by
  obtain ⟨ht, -, hin⟩ := h.inTag hw ha he
  have hb : m.boundsWrapper = false := by simp [Marker.boundsWrapper, ha]
  have hnext : ∀ cur' : Cursor ω, cur'.marker = cur.marker + 1 →
      c.remaining cur' < c.remaining cur := fun cur' hm =>
    remaining_lt h.marker_lt (hm ▸ Nat.lt_succ_self _)
  refine meets_bind_safe (hrun {}) fun p => meets_unless_halted trivial ?_
  split
  · exact meets_dropElement hw h.toHolds ht h.marker_lt hin
  · split
    · exact meets_pure ⟨h.holds_planJump hw ha he, hnext _ (marker_planJump cur e)⟩
    · exact meets_pure ⟨h.holds_next_inner hw hb, hnext _ rfl⟩

/-- Where a wrapper ends that was opened in the component, it is open. -/
theorem opened_of_end (hw : c.WellFormed content?) {opening : Nat}
    (ha : m.action = .wrapperEnd opening) (ho : c.entry.marker ≤ opening) :
    c.opened cur.marker = opening :: c.opened (cur.marker + 1) := by
  have hopened := hw.opened_of_end h.marker_eq ha
  rwa [if_pos ho] at hopened

/-- The cursor behind the end of a wrapper. -/
theorem holds_leave (hw : c.WellFormed content?) {opening depth : Nat}
    (ha : m.action = .wrapperEnd opening) (ho : c.entry.marker ≤ opening)
    (hd : cur.depth = depth + 1) :
    c.Holds { cur.next with depth := depth, stack := cur.stack.setFrame depth [] } := by
  have hdepth := h.depth_eq
  rw [h.opened_of_end hw ha ho, List.length_cons, hd] at hdepth
  refine h.holds_next hw (Nat.succ.inj hdepth)
    (h.stack.setFrame depth fun _ hending => absurd hending List.not_mem_nil) ?_
  have hnone := h.jump_eq_none hw (by simp [Marker.boundsWrapper, ha])
  exact fun jump hj => by cases hnone.symm.trans hj

theorem meets_closeWrapper (hw : c.WellFormed content?) {opening : Nat}
    (ha : m.action = .wrapperEnd opening) (ho : c.entry.marker ≤ opening)
    (he : cur₀.marker < c.exit.marker) (hm : cur₀.marker ≤ cur.marker) :
    (closeWrapper cur).Meets (c.SoundNext cur₀) := by
  -- The wrapper has been opened in this component, so the depth is not zero.
  have hdepth := h.depth_eq
  have hsize := Nat.le_of_lt (Array.getElem?_eq_some_iff.mp h.marker_eq).1
  have hle := hw.length_opened_le hsize
  rw [← hdepth] at hle
  rw [h.opened_of_end hw ha ho, List.length_cons] at hdepth
  unfold closeWrapper
  split
  · next hzero =>
    rw [hzero] at hdepth
    cases hdepth
  · next depth hsucc =>
    rw [hsucc] at hle
    obtain ⟨frame, hframe, hsafe⟩ := h.stack.exists_frame hle
    simp only [Cursor.frame, hframe, pure_bind]
    exact meets_bind_safe (safe_runEndings hsafe) fun _ =>
      meets_proceed (h.holds_leave hw ha ho hsucc) (remaining_lt he (Nat.lt_succ_of_le hm))

/-- The cursor at the end of the wrapper that it has opened, in the same component. -/
theorem stands_end (hw : c.WellFormed content?) {onStart : δ → WrapperRender ω Unit}
    {closing? : Option Nat} (ha : m.action = .wrapperStart onStart closing?)
    {stack : EndingStack (Ending ω)} (hs : stack.Safe c.maxNesting) {j : Nat} {n : Marker ω δ}
    (hn : c.template.markers[j]? = some n)
    (hopen : openBefore c.template.markers j =
      cur.marker :: openBefore c.template.markers cur.marker) (hj : j < c.exit.marker) :
    c.Stands { cur with
      depth := cur.depth + 1
      stack := stack
      marker := j
      offset := n.position } n := by
  have hlt : cur.marker < j := lt_of_mem_openBefore (hopen ▸ List.mem_cons_self)
  have hnone := h.jump_eq_none hw (by simp [Marker.boundsWrapper, ha])
  refine
    { cuts := hw.cuts_marker hn
      entry_le := Nat.le_trans h.entry_le (Nat.le_of_lt hlt)
      marker_le := Nat.le_of_lt hj
      offset_le := hw.position_le hj hn
      depth_eq := ?_
      stack := hs
      jump := fun jump hjump => by cases hnone.symm.trans hjump
      marker_lt := hj
      marker_eq := hn
      offset_eq := rfl
      before_jump := fun jump hjump => by cases hnone.symm.trans hjump }
  -- The wrapper is open there, and around it what was open at its start.
  show cur.depth + 1 = (c.opened j).length
  rw [opened_cons h.entry_le hopen, List.length_cons, h.depth_eq]
  rfl

/-- The content of the wrapper is dropped that has been opened with the given stack. -/
theorem meets_dropContent (hw : c.WellFormed content?) {onStart : δ → WrapperRender ω Unit}
    {closing? : Option Nat} (ha : m.action = .wrapperStart onStart closing?)
    {stack : EndingStack (Ending ω)} (hs : stack.Safe c.maxNesting) :
    (c.dropContent { cur with depth := cur.depth + 1, stack := stack } closing?).Meets
      (c.SoundNext cur) := by
  obtain ⟨j, n, rfl, hn, hna, hopen⟩ := hw.exists_end h.marker_eq ha
  have hlt : cur.marker < j := lt_of_mem_openBefore (hopen ▸ List.mem_cons_self)
  have hmarker : c.template.marker j = (pure n : Render ω (Marker ω δ)) := by
    simp [Template.marker, hn]
  simp only [dropContent, hmarker, pure_bind]
  split
  · next hle =>
    have hpart := hw.part_eq_of_le hn hle
    have hcontent := hw.content_eq hpart
    subst hcontent
    exact meets_swallow hs hpart (hw.resumable_of_end h.marker_lt hle hn hopen)
  · next hgt =>
    exact (h.stands_end hw ha hs hn hopen (Nat.lt_of_not_le hgt)).meets_closeWrapper hw hna
      h.entry_le h.marker_lt (Nat.le_of_lt hlt)

/-- The cursor inside of a wrapper that has been opened. -/
theorem holds_enter (hw : c.WellFormed content?) {onStart : δ → WrapperRender ω Unit}
    {closing? : Option Nat} (ha : m.action = .wrapperStart onStart closing?)
    {stack : EndingStack (Ending ω)} (hs : stack.Safe c.maxNesting) :
    c.Holds { cur.next with depth := cur.depth + 1, stack := stack } := by
  refine h.holds_next hw ?_ hs ?_
  · rw [opened_succ_of_start h.entry_le h.marker_eq ha, List.length_cons, h.depth_eq]
  · have hnone := h.jump_eq_none hw (by simp [Marker.boundsWrapper, ha])
    exact fun jump hj => by cases hnone.symm.trans hj

/-- The cursor behind the end of a wrapper that was opened in the part before. -/
theorem holds_next_of_end (hw : c.WellFormed content?) {opening : Nat}
    (ha : m.action = .wrapperEnd opening) (ho : ¬c.entry.marker ≤ opening) : c.Holds cur.next := by
  have hopened := hw.opened_of_end h.marker_eq ha
  rw [if_neg ho] at hopened
  refine h.holds_next hw ?_ h.stack (h.jump_next hw)
  rw [hopened, h.depth_eq]

theorem meets_runWrapperStart (hw : c.WellFormed content?) {onStart : δ → WrapperRender ω Unit}
    {closing? : Option Nat} (ha : m.action = .wrapperStart onStart closing?)
    {run : WrapperRender ω Unit} (hrun : WrapperRender.Safe run) :
    (c.runWrapperStart cur run closing?).Meets (c.SoundNext cur) := by
  have hopened := opened_succ_of_start h.entry_le h.marker_eq ha
  have hle := hw.length_opened_le (Array.getElem?_eq_some_iff.mp h.marker_eq).1
  rw [hopened, List.length_cons, ← h.depth_eq] at hle
  obtain ⟨frame, hframe, hsafe⟩ := h.stack.exists_frame hle
  simp only [runWrapperStart, Cursor.frame, hframe, pure_bind]
  refine meets_bind (hrun { endings := frame } hsafe) ?_
  intro p hp
  have hs := h.stack.setFrame cur.depth hp
  refine meets_unless_halted trivial ?_
  split
  · exact h.meets_dropContent hw ha hs
  · exact meets_pure ⟨h.holds_enter hw ha hs, remaining_lt h.marker_lt (Nat.lt_succ_self _)⟩

/-- What a marker says is done without fail. -/
theorem meets_act (hw : c.WellFormed content?) (hsafe : m.action.Safe data) :
    (c.act data cur m).Meets (c.SoundNext cur) := by
  unfold act
  cases ha : m.action with
  | plain run =>
    rw [ha] at hsafe
    exact h.meets_runPlain hw (by simp [Marker.boundsWrapper, ha]) hsafe
  | attributes run index =>
    rw [ha] at hsafe
    obtain ⟨e, he, -⟩ := hw.owner cur.marker m run index h.marker_eq ha
    simp only [Template.element, he, pure_bind]
    exact h.meets_runAttributes hw ha he hsafe
  | wrapperStart run closing? =>
    rw [ha] at hsafe
    exact h.meets_runWrapperStart hw ha hsafe
  | wrapperEnd opening =>
    simp only
    split
    · next hle => exact h.meets_closeWrapper hw ha hle h.marker_lt (Nat.le_refl _)
    · next hlt =>
      exact meets_pure ⟨h.holds_next_of_end hw ha hlt,
        remaining_lt h.marker_lt (Nat.lt_succ_self _)⟩

end Stands

/-! ## 5. Walks -/

/-- The cursor at the next marker, if no jump starts before that. -/
theorem Holds.stands (hw : c.WellFormed content?) (h : c.Holds cur)
    (hlt : cur.marker < c.exit.marker) (hm : c.template.markers[cur.marker]? = some m)
    (hj : ∀ jump, cur.jump = some jump → m.position < jump.start) (elements : List Element)
    (tagMark : Option TagMark) :
    c.Stands { cur with
      offset := m.position
      elements := elements
      tagMark := tagMark } m where
  cuts := hw.cuts_marker hm
  entry_le := h.entry_le
  marker_le := h.marker_le
  offset_le := hw.position_le hlt hm
  depth_eq := h.depth_eq
  stack := h.stack
  jump := fun jump hjump => by
    have hbefore := hj jump hjump
    have hpos := h.cuts.ahead cur.marker m (Nat.le_refl _) hm
    obtain ⟨index, e, ht, -, rfl⟩ := h.jump jump hjump
    exact ⟨index, e, ⟨ht.element, Nat.lt_of_lt_of_le ht.start_lt hpos, ht.marker_le⟩,
      Nat.le_of_lt hbefore, rfl⟩
  marker_lt := hlt
  marker_eq := hm
  offset_eq := rfl
  before_jump := hj

theorem meets_visit (hw : c.WellFormed content?) (hsafe : c.template.Safe data) (h : c.Holds cur)
    (hj : ∀ jump, cur.jump = some jump → ∀ m : Marker ω δ, cur.marker < c.exit.marker →
      c.template.markers[cur.marker]? = some m → m.position < jump.start) :
    (c.visit data cur).Meets (c.SoundNext cur) := by
  unfold visit
  split
  · next hlt =>
    have hsize := Nat.lt_of_lt_of_le hlt hw.cuts_exit.marker_le
    obtain ⟨m, hm⟩ : ∃ m, c.template.markers[cur.marker]? = some m :=
      ⟨_, Array.getElem?_eq_getElem hsize⟩
    have hpos := h.cuts.ahead cur.marker m (Nat.le_refl _) hm
    have hmarker : c.template.marker cur.marker = (pure m : Render ω (Marker ω δ)) := by
      simp [Template.marker, hm]
    simp only [hmarker, pure_bind]
    rw [← bind_assoc]
    refine meets_bind (meets_passTags hpos (hw.ordered.position_le _ m hm)) ?_
    intro cur' hcur'
    obtain ⟨elements, tagMark, rfl⟩ := hcur'
    refine meets_unless_halted trivial ?_
    have hstands := h.stands hw hlt hm (fun jump hjump => hj jump hjump m hlt hm) elements
      tagMark
    exact hstands.meets_act hw (hsafe cur.marker m hm)
  · next hge => exact meets_finish hw h (Nat.le_antisymm h.marker_le (Nat.le_of_not_lt hge))

theorem meets_nextPosition (hw : c.WellFormed content?) :
    (c.nextPosition cur).Meets fun position => ∀ m : Marker ω δ, cur.marker < c.exit.marker →
      c.template.markers[cur.marker]? = some m → position = m.position := by
  unfold nextPosition
  split
  · next hlt =>
    have hsize := Nat.lt_of_lt_of_le hlt hw.cuts_exit.marker_le
    have hmarker : c.template.marker cur.marker =
        (pure c.template.markers[cur.marker] : Render ω (Marker ω δ)) := by
      simp [Template.marker, hsize]
    simp only [hmarker, pure_bind]
    refine meets_pure ?_
    intro m _ hm
    rw [Array.getElem?_eq_getElem hsize] at hm
    cases hm
    rfl
  · next hge => exact meets_pure fun m hlt _ => absurd hlt hge

/-- A step does not fail, and what is known of the cursor is known of the next one. -/
theorem meets_step (hw : c.WellFormed content?) (hsafe : c.template.Safe data) (h : c.Holds cur) :
    (c.step data cur).Meets (c.SoundNext cur) := by
  unfold step
  split
  · next hnone => exact meets_visit hw hsafe h fun jump hj => by cases hnone.symm.trans hj
  · next jump hj =>
    refine meets_bind (meets_nextPosition hw) ?_
    intro position hposition
    split
    · exact meets_takeJump hw h hj
    -- The jump starts behind the next marker, which is visited first.
    · next hlt =>
      refine meets_visit hw hsafe h ?_
      intro jump' hj' m hm hmarker
      cases hj.symm.trans hj'
      exact hposition m hm hmarker ▸ Nat.lt_of_not_le hlt

/-- A walk does not fail: each step leaves fewer steps to go. -/
theorem meets_loop (hw : c.WellFormed content?) (hsafe : c.template.Safe data) (h : c.Holds cur) :
    (c.loop data cur).Meets fun p => c.Sound p.1 := by
  induction hn : c.remaining cur using Nat.strongRecOn generalizing cur with
  | _ n ih =>
    subst hn
    rw [loop]
    refine meets_bind (meets_step hw hsafe h) ?_
    intro next hnext
    cases next with
    | stop outcome stack => exact meets_pure hnext
    | goto cur' =>
      -- The check against a step that leads nowhere does not strike.
      simp only
      rw [if_pos hnext.2]
      exact ih _ hnext.2 hnext.1 rfl

/-- The cursor at a place where no wrapper is open that was opened in the component. -/
theorem holds_cursorAt {place : Place} (hcuts : c.template.Cuts place)
    (hentry : c.entry.marker ≤ place.marker) (hmarker : place.marker ≤ c.exit.marker)
    (hoffset : place.offset ≤ c.exit.offset) (hopened : c.opened place.marker = []) :
    c.Holds (c.cursorAt place (EndingStack.ofDepth c.maxNesting)) where
  cuts := hcuts
  entry_le := hentry
  marker_le := hmarker
  offset_le := hoffset
  depth_eq := (congrArg List.length hopened).symm
  stack := .ofDepth c.maxNesting
  jump := fun _ hj => by cases hj

theorem holds_cursorAt_entry (hw : c.WellFormed content?) :
    c.Holds (c.cursorAt c.entry (EndingStack.ofDepth c.maxNesting)) :=
  holds_cursorAt hw.cuts_entry (Nat.le_refl _) hw.entry_le_exit.1 hw.entry_le_exit.2 c.opened_entry

/-- A run from a place where no wrapper is open that was opened in the component. -/
theorem meets_run (hw : c.WellFormed content?) (hsafe : c.template.Safe data) {place : Place}
    (hcuts : c.template.Cuts place) (hentry : c.entry.marker ≤ place.marker)
    (hmarker : place.marker ≤ c.exit.marker) (hoffset : place.offset ≤ c.exit.offset)
    (hopened : c.opened place.marker = []) : (c.run data place).Meets c.Sound := by
  refine meets_unless_halted trivial ?_
  have hcur := holds_cursorAt hcuts hentry hmarker hoffset hopened
  exact meets_bind (meets_loop hw hsafe hcur) fun p hp => meets_pure hp

theorem meets_run_entry (hw : c.WellFormed content?) (hsafe : c.template.Safe data) :
    (c.run data c.entry).Meets c.Sound :=
  meets_run hw hsafe hw.cuts_entry (Nat.le_refl _) hw.entry_le_exit.1 hw.entry_le_exit.2
    c.opened_entry

/-- Rendering a component does not fail. -/
theorem safe_render (hw : c.WellFormed content?) (hsafe : c.template.Safe data) :
    Render.Safe (c.render data) := by
  refine meets_bind (meets_run_entry hw hsafe) ?_
  intro outcome houtcome
  cases outcome with
  | halted => exact meets_pure trivial
  | finished carried => exact safe_runEndings houtcome
  | swallowed resume carried => exact safe_runEndings houtcome.1

end Component

/-! ## 6. Wrappers -/

section Wrapper

variable {w : Wrapper ω δ} {data : δ}

/-- The part behind the content marker does not fail, also if it is resumed behind
something that was dropped. -/
theorem Wrapper.safe_run_postContent (hw : w.WellFormed) (hsafe : w.template.Safe data)
    {resume : Place} (hr : w.template.Resumable w.content resume) :
    Render.Safe (w.postContent.run data resume) :=
  (Component.meets_run hw.postContent hsafe hr.toCuts hr.marker_ge hr.marker_le hr.offset_le
    (Component.opened_eq_nil hr.opened_lt)).safe

theorem Wrapper.safe_renderPost (hw : w.WellFormed) (hsafe : w.template.Safe data) {resume : Place}
    (hr : w.template.Resumable w.content resume) : Render.Safe (w.renderPost data resume) :=
  meets_bind_safe (Wrapper.safe_run_postContent hw hsafe hr) fun _ => meets_pure trivial

theorem Wrapper.safe_render (hw : w.WellFormed) (hsafe : w.template.Safe data)
    {payload : Render ω Unit} (hpayload : Render.Safe payload) :
    Render.Safe (w.render data payload) := by
  refine meets_bind (Component.meets_run_entry hw.preContent hsafe) ?_
  intro outcome houtcome
  cases outcome with
  | halted => exact meets_pure trivial
  | finished carried =>
    exact meets_bind_safe hpayload fun _ => meets_bind_safe (safe_runEndings houtcome) fun _ =>
      Wrapper.safe_renderPost hw hsafe hw.resumable_content
  | swallowed resume carried =>
    exact meets_bind_safe (safe_runEndings houtcome.1) fun _ =>
      Wrapper.safe_renderPost hw hsafe houtcome.2.2

theorem WrapperRender.safe_deferPost (hw : w.WellFormed) (hsafe : w.template.Safe data)
    {resume : Place} (hr : w.template.Resumable w.content resume) {carried : List (Ending ω)}
    (hcarried : ∀ ending ∈ carried, Render.Safe ending) :
    WrapperRender.Safe (WrapperRender.deferPost w data resume carried) := by
  intro scope hscope
  refine meets_pure ?_
  intro ending hending
  rcases List.mem_append.mp hending with hmem | hmem
  · exact hcarried ending hmem
  · rcases List.mem_cons.mp hmem with rfl | hmem
    · exact Wrapper.safe_renderPost hw hsafe hr
    · exact hscope ending hmem

/-- Wrapping the content at hand does not fail, nor does what is left for its end. -/
theorem WrapperRender.safe_wrap (hw : w.WellFormed) (hsafe : w.template.Safe data) :
    WrapperRender.Safe (WrapperRender.wrap w data) := by
  intro scope hscope
  unfold WrapperRender.wrap
  rw [StateT.run_bind, StateT.run_lift, bind_assoc]
  refine meets_bind (Component.meets_run_entry hw.preContent hsafe) ?_
  intro outcome houtcome
  rw [pure_bind]
  cases outcome with
  | halted => exact meets_pure hscope
  | finished carried =>
    exact WrapperRender.safe_deferPost hw hsafe hw.resumable_content houtcome scope hscope
  | swallowed resume carried =>
    exact WrapperRender.safe_deferPost hw hsafe houtcome.2.2 houtcome.1
      { scope with skipContent := true } hscope

end Wrapper

end HtmlTemplate
