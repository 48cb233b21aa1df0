import Mathlib.Data.List.TakeWhile
import HtmlTemplate.Proofs.Rendering.Extending
import HtmlTemplate.Proofs.Rendering.Onward
import HtmlTemplate.Proofs.Rendering.Swallowing
import HtmlTemplate.Proofs.Template.Apart

/-!
# Dropping elements

A callback in a start tag may ask to drop the element. By then the `<` of the tag has been
written, and maybe attributes and what other markers in the tag have put out. The walk takes all
of that back: it keeps the size that the output had when it came to the last start tag with
attribute markers. A walk passes start tags one behind the other and jumps over them as a whole,
so whenever it stands in a start tag, that is the tag whose size is kept.

Results:
1. `Component.OutputAt`: the output when the literal bytes up to an offset had just been written.
2. `Component.Marks`: what a walk keeps of start tags. Each transition preserves it.
3. `Component.DropsElements`: what happens when an element is dropped.
4. `dropsElements_of_compile`: so it is in all walks over compiled templates.
-/

namespace HtmlTemplate

open Render

variable {ω δ : Type}

/-! ## 1. Start tags on the way -/

namespace Template

variable {t : Template ω δ} {cur cur' : Cursor ω} {s s' : Session ω} {stop k : Nat}
  {e e' : Element} {es front rest : List Element} {content? : Option Place} {maxNesting : Nat}

/-- What is kept at the start tags passed: the size of the output at the last one, or what was
kept before if all of them have been jumped over. -/
def MarksLast (t : Template ω δ) (front : List Element) (cur : Cursor ω) (s : Session ω)
    (tagMark : Option TagMark) : Prop :=
  ((∀ e ∈ front, e.openStart < cur.offset) ∧ tagMark = cur.tagMark) ∨
    ∃ e ∈ front, cur.offset ≤ e.openStart ∧ (∀ e' ∈ front, e'.openStart ≤ e.openStart) ∧
      tagMark = some
        { start := e.openStart, size := (t.wrote cur.offset e.openStart s).response.size }

theorem MarksLast.cons_of_lt {tagMark : Option TagMark} (h : t.MarksLast front cur s tagMark)
    (he : e.openStart < cur.offset) : t.MarksLast (e :: front) cur s tagMark := by
  rcases h with ⟨hall, hmark⟩ | ⟨last, hmem, hle, hmax, hmark⟩
  · exact .inl ⟨List.forall_mem_cons.mpr ⟨he, hall⟩, hmark⟩
  · refine .inr ⟨last, List.mem_cons_of_mem e hmem, hle, ?_, hmark⟩
    exact List.forall_mem_cons.mpr ⟨Nat.le_of_lt (Nat.lt_of_lt_of_le he hle), hmax⟩

/-- The start tag of `e` has been passed first. -/
theorem MarksLast.cons_of_le {tagMark : Option TagMark} {size : Nat}
    (hle : cur.offset ≤ e.openStart)
    (hsize : size = (t.wrote cur.offset e.openStart s).response.size)
    (h : t.MarksLast front
      { cur with
        offset := e.openStart
        tagMark := some { start := e.openStart, size := size } }
      (t.wrote cur.offset e.openStart s) tagMark) : t.MarksLast (e :: front) cur s tagMark := by
  rcases h with ⟨hall, hmark⟩ | ⟨last, hmem, hfrom, hmax, hmark⟩
  · refine .inr ⟨e, List.mem_cons_self, hle, ?_, hsize ▸ hmark⟩
    exact List.forall_mem_cons.mpr ⟨Nat.le_refl _, fun e' he' => Nat.le_of_lt (hall e' he')⟩
  · refine .inr ⟨last, List.mem_cons_of_mem e hmem, Nat.le_trans hle hfrom, ?_, ?_⟩
    · exact List.forall_mem_cons.mpr ⟨hfrom, hmax⟩
    · rwa [t.wrote_wrote hle hfrom] at hmark

/-- On the way to `stop` the start tags before it are passed, and the last one is kept. -/
theorem exists_passed
    (h : (do let cur ← t.passTags stop es cur; t.advance cur stop) s = .ok (cur', s')) :
    ∃ front, es = front ++ cur'.elements ∧ (∀ e ∈ front, e.openStart < stop) ∧
      (∀ e, cur'.elements.head? = some e → stop ≤ e.openStart) ∧
      t.MarksLast front cur s cur'.tagMark := by
  induction es generalizing cur s with
  | nil =>
    have h : t.advance { cur with elements := [] } stop s = .ok (cur', s') := h
    obtain ⟨-, -, rfl, -⟩ := advance_eq_wrote h
    exact ⟨[], rfl, nofun, nofun, .inl ⟨nofun, rfl⟩⟩
  | cons e rest ih =>
    unfold passTags at h
    split at h
    · next hlt =>
      split at h
      · next hle =>
        rw [bind_assoc] at h
        obtain ⟨cur₁, s₁, hadvance, h⟩ := ok_of_bind h
        obtain ⟨-, -, rfl, rfl⟩ := advance_eq_wrote hadvance
        obtain ⟨front, rfl, hfront, hahead, hmarks⟩ := ih h
        exact ⟨e :: front, rfl, List.forall_mem_cons.mpr ⟨hlt, hfront⟩, hahead,
          .cons_of_le hle rfl hmarks⟩
      · next hlt' =>
        obtain ⟨front, rfl, hfront, hahead, hmarks⟩ := ih h
        exact ⟨e :: front, rfl, List.forall_mem_cons.mpr ⟨hlt, hfront⟩, hahead,
          hmarks.cons_of_lt (Nat.lt_of_not_le hlt')⟩
    · next hge =>
      have h : t.advance { cur with elements := e :: rest } stop s = .ok (cur', s') := h
      obtain ⟨-, -, rfl, -⟩ := advance_eq_wrote h
      refine ⟨[], rfl, nofun, ?_, .inl ⟨nofun, rfl⟩⟩
      rintro _ ⟨⟩
      exact Nat.le_of_not_lt hge

/-- The start tags stand in the order of the elements. -/
theorem Apart.openStart_lt (h : t.Apart) (hw : t.WellFormed content? maxNesting) {i j : Nat}
    (hij : i < j) (he : t.elements[i]? = some e) (he' : t.elements[j]? = some e') :
    e.openStart < e'.openStart :=
  Nat.lt_of_lt_of_le (hw.closed i e he).start_lt (h.starts i j e e' hij he he')

/-- If the first element ahead begins behind the offset, then all of them do. -/
theorem Apart.le_openStart (h : t.Apart) (hw : t.WellFormed content? maxNesting) {i : Nat}
    (hfirst : ∀ e, t.elements[k]? = some e → stop ≤ e.openStart) (hi : k ≤ i)
    (he : t.elements[i]? = some e) : stop ≤ e.openStart := by
  rcases Nat.eq_or_lt_of_le hi with rfl | hlt
  · exact hfirst e he
  · have hk : k < t.elements.size := Nat.lt_trans hlt (Array.getElem?_eq_some_iff.mp he).1
    have hget := Array.getElem?_eq_getElem hk
    exact Nat.le_trans (hfirst _ hget) (Nat.le_of_lt (h.openStart_lt hw hlt hget he))

/-- The elements of the table that are in front of the rest. -/
theorem mem_front_iff (h : t.elements.toList.drop k = front ++ rest) :
    e ∈ front ↔ ∃ i, k ≤ i ∧ i < k + front.length ∧ t.elements[i]? = some e := by
  have hget : ∀ j, j < front.length → front[j]? = t.elements[k + j]? := by
    intro j hj
    rw [← Array.getElem?_toList, ← List.getElem?_drop, h, List.getElem?_append_left hj]
  constructor
  · intro hmem
    obtain ⟨j, hj⟩ := List.mem_iff_getElem?.mp hmem
    have hlt := (List.getElem?_eq_some_iff.mp hj).1
    exact ⟨k + j, Nat.le_add_right _ _, Nat.add_lt_add_left hlt k, (hget j hlt).symm.trans hj⟩
  · rintro ⟨i, hk, hi, he⟩
    obtain ⟨j, rfl⟩ := Nat.exists_eq_add_of_le hk
    exact List.mem_of_getElem? ((hget j (Nat.lt_of_add_lt_add_left hi)).trans he)

theorem drop_of_front (h : t.elements.toList.drop k = front ++ rest) :
    rest = t.elements.toList.drop (k + front.length) := by
  rw [← List.drop_drop, h, List.drop_left]

end Template

namespace Component

variable {c : Component ω δ} {data : δ} {cur₀ cur cur₁ cur' : Cursor ω} {s₀ s s₁ s' : Session ω}
  {m : Marker ω δ} {content? : Option Place} {place : Place} {start index i : Nat} {e : Element}
  {output output' : ByteArray}

/-! ## 2. The output at a start tag -/

/-- In the walk from the cursor `cur₀` on, this is the output when the literal bytes up to the
offset `start` have just been written, on the way to a marker behind it. -/
inductive OutputAt (c : Component ω δ) (data : δ) (cur₀ : Cursor ω) (s₀ : Session ω)
    (start : Nat) : ByteArray → Prop
  | intro {cur cur₁ : Cursor ω} {s s₁ : Session ω} {m : Marker ω δ} :
      c.Reaches data cur₀ s₀ cur s → c.Arrives cur s m cur₁ s₁ → cur.offset ≤ start →
      start < m.position →
      OutputAt c data cur₀ s₀ start (c.template.wrote cur.offset start s).response.output

/-- A walk that comes from one cursor to two others comes from one of these to the other. -/
theorem Reaches.total (h : c.Reaches data cur₀ s₀ cur s) (h' : c.Reaches data cur₀ s₀ cur' s') :
    c.Reaches data cur s cur' s' ∨ c.Reaches data cur' s' cur s := by
  refine Relation.ReflTransGen.total_of_right_unique ?_ h h'
  rintro ⟨cur, s⟩ ⟨cur₁, s₁⟩ ⟨cur₂, s₂⟩ h₁ h₂
  cases Eq.trans (Eq.symm h₁) h₂
  rfl

/-- A walk that comes to a marker is not at an offset before that marker later. -/
theorem Arrives.eq_of_reaches (ha : c.Arrives cur s m cur₁ s₁)
    (h : c.Reaches data cur s cur' s') (hw : c.WellFormed content?) (hp : c.Placed cur)
    (hs : s.response.halted = false) (hlt : cur'.offset < m.position) :
    cur' = cur ∧ s' = s := by
  rcases Relation.ReflTransGen.cases_head h with heq | ⟨⟨cur₂, s₂⟩, hstep, hrest⟩
  · cases heq
    exact ⟨rfl, rfl⟩
  · have htrans := transition_of_step hs hstep
    have hbehind := (ha.before_of_transition htrans hw hp).1
    have hlater := Reaches.before hrest (htrans.reports hs) hw (htrans.placed hw hp)
    obtain ⟨elements, tagMark, rfl⟩ := ha.cursor_eq
    exact absurd (Nat.le_trans hbehind.offset_le hlater.offset_le) (Nat.not_le_of_lt hlt)

/-- A walk comes to an offset once. -/
theorem OutputAt.unique (h : c.OutputAt data cur₀ s₀ start output)
    (h' : c.OutputAt data cur₀ s₀ start output') (hw : c.WellFormed content?)
    (hp : c.Placed cur₀) (hs₀ : s₀.response.halted = false) : output' = output := by
  obtain ⟨hreach, ha, hle, hlt⟩ := h
  obtain ⟨hreach', ha', hle', hlt'⟩ := h'
  rcases hreach.total hreach' with hbetween | hbetween
  · obtain ⟨rfl, rfl⟩ := ha.eq_of_reaches hbetween hw (hreach.placed hs₀ hw hp)
      (hreach.running hs₀) (Nat.lt_of_le_of_lt hle' hlt)
    rfl
  · obtain ⟨rfl, rfl⟩ := ha'.eq_of_reaches hbetween hw (hreach'.placed hs₀ hw hp)
      (hreach'.running hs₀) (Nat.lt_of_le_of_lt hle hlt')
    rfl

/-! ## 3. What a walk keeps of start tags -/

/-- The size is kept that the output had at the start tag of the element, and nothing of that
output has been taken back. -/
def Marked (c : Component ω δ) (data : δ) (cur₀ : Cursor ω) (s₀ : Session ω) (cur : Cursor ω)
    (s : Session ω) (e : Element) : Prop :=
  ∃ output, c.OutputAt data cur₀ s₀ e.openStart output ∧
    cur.tagMark = some { start := e.openStart, size := output.size } ∧
    ∃ more, s.response.output = output ++ more

/-- The first `passed` elements have been passed. The start tags of the others are ahead, or
behind with all their markers; and so are those of the elements passed, but for the one in which
the cursor stands, of which the size of the output is kept. -/
structure MarksFrom (c : Component ω δ) (data : δ) (cur₀ : Cursor ω) (s₀ : Session ω)
    (cur : Cursor ω) (s : Session ω) (passed : Nat) : Prop where
  elements_eq : cur.elements = c.template.elements.toList.drop passed
  behind : ∀ (i : Nat) (e : Element), i < passed → c.template.elements[i]? = some e →
    e.openStart < cur.offset ∧
      (cur.marker < e.firstInnerMarker → c.Marked data cur₀ s₀ cur s e)
  ahead : ∀ (i : Nat) (e : Element), passed ≤ i → c.template.elements[i]? = some e →
    cur.marker < e.firstInnerMarker → cur.offset ≤ e.openStart

/-- What is known of the cursor of a walk and of the start tags. -/
def Marks (c : Component ω δ) (data : δ) (cur₀ : Cursor ω) (s₀ : Session ω) (cur : Cursor ω)
    (s : Session ω) : Prop :=
  ∃ passed, c.MarksFrom data cur₀ s₀ cur s passed

theorem Marked.extends (h : c.Marked data cur₀ s₀ cur s e) (h' : s.Extends s')
    (hmark : cur'.tagMark = cur.tagMark) : c.Marked data cur₀ s₀ cur' s' e := by
  obtain ⟨output, hat, heq, more, hmore⟩ := h
  obtain ⟨more', hmore'⟩ := h'
  exact ⟨output, hat, hmark.trans heq, more ++ more', by
    rw [hmore', hmore, ByteArray.append_assoc]⟩

/-- More is written, and the cursor goes to a marker further on. -/
theorem Marks.extends (h : c.Marks data cur₀ s₀ cur s) (h' : s.Extends s')
    (hmarker : cur.marker ≤ cur'.marker) (hoffset : cur'.offset = cur.offset)
    (hmark : cur'.tagMark = cur.tagMark) (helements : cur'.elements = cur.elements) :
    c.Marks data cur₀ s₀ cur' s' := by
  obtain ⟨passed, hpassed⟩ := h
  refine ⟨passed, helements.trans hpassed.elements_eq, fun i e hi he => ?_, fun i e hi he hm => ?_⟩
  · obtain ⟨hstart, hmarked⟩ := hpassed.behind i e hi he
    rw [hoffset]
    exact ⟨hstart, fun hm => (hmarked (Nat.lt_of_le_of_lt hmarker hm)).extends h' hmark⟩
  · rw [hoffset]
    exact hpassed.ahead i e hi he (Nat.lt_of_le_of_lt hmarker hm)

/-- The walk lands outside of all start tags. -/
theorem Marks.land (h : c.Marks data cur₀ s₀ cur s) (hw : c.WellFormed content?)
    (hcuts : c.template.Cuts place) (hbetween : c.template.BetweenTags place.offset)
    (hmarker : place.marker ≤ cur'.marker) (hoffset : cur'.offset = place.offset)
    (hle : cur.offset ≤ place.offset) (helements : cur'.elements = cur.elements) :
    c.Marks data cur₀ s₀ cur' s' := by
  obtain ⟨passed, hpassed⟩ := h
  refine ⟨passed, helements.trans hpassed.elements_eq, fun i e hi he => ?_, fun i e hi he hm => ?_⟩
  · have hstart := Nat.lt_of_lt_of_le (hpassed.behind i e hi he).1 hle
    rw [hoffset]
    refine ⟨hstart, fun hm => ?_⟩
    rcases hcuts.before_or_behind hw.toWellFormed hbetween he with hbefore | ⟨-, hinner⟩
    · exact absurd hbefore (Nat.not_le_of_lt hstart)
    · exact absurd hm (Nat.not_lt_of_le (Nat.le_trans hinner hmarker))
  · rw [hoffset]
    rcases hcuts.before_or_behind hw.toWellFormed hbetween he with hbefore | ⟨-, hinner⟩
    · exact hbefore
    · exact absurd hm (Nat.not_lt_of_le (Nat.le_trans hinner hmarker))

/-- At the place where a walk begins. -/
theorem marks_cursorAt (hw : c.WellFormed content?) (hcuts : c.template.Cuts place)
    (hbetween : c.template.BetweenTags place.offset) (stack : EndingStack (Ending ω))
    (cur₀ : Cursor ω) (s₀ s : Session ω) : c.Marks data cur₀ s₀ (c.cursorAt place stack) s := by
  let jumped (e : Element) : Bool := e.openStart < place.offset
  have hsplit : c.template.elements.toList.drop 0 =
      c.template.elements.toList.takeWhile jumped ++ c.template.elements.toList.dropWhile jumped :=
    List.takeWhile_append_dropWhile.symm
  refine ⟨(c.template.elements.toList.takeWhile jumped).length, ?_, fun i e hi he => ?_,
    fun i e hi he hm => ?_⟩
  · rw [← Nat.zero_add (List.length _)]
    exact Template.drop_of_front hsplit
  · have hmem := (Template.mem_front_iff hsplit).mpr ⟨i, Nat.zero_le _, by omega, he⟩
    have hstart : e.openStart < place.offset := by simpa [jumped] using List.mem_takeWhile_imp hmem
    refine ⟨hstart, fun hm => ?_⟩
    rcases hcuts.before_or_behind hw.toWellFormed hbetween he with hbefore | ⟨-, hinner⟩
    · exact absurd hbefore (Nat.not_le_of_lt hstart)
    · exact absurd hm (Nat.not_lt_of_le hinner)
  · rcases hcuts.before_or_behind hw.toWellFormed hbetween he with hbefore | ⟨-, hinner⟩
    · exact hbefore
    · exact absurd hm (Nat.not_lt_of_le hinner)

section Arrives

variable (ha : c.Arrives cur s m cur₁ s₁) (hw : c.WellFormed content?) (hapart : c.template.Apart)
include ha hw hapart

/-- No start tag begins between that in which a marker stands and the marker. -/
theorem Arrives.index_le {j : Nat} {e' : Element} (he : c.template.elements[i]? = some e)
    (he' : c.template.elements[j]? = some e') (hstart' : e'.openStart < m.position)
    (hm : cur₁.marker < e.firstInnerMarker) : j ≤ i := by
  refine Nat.le_of_not_lt fun hij => ?_
  have hle := hapart.starts i j e e' hij he he'
  have hend := ((hw.closed i e he).inner_iff _ m ha.marker_eq).mp (ha.marker_cursor ▸ hm)
  omega

variable {front : List Element} {k : Nat}
  (hmem : ∀ e, e ∈ front ↔ ∃ i, k ≤ i ∧ i < k + front.length ∧ c.template.elements[i]? = some e)
  (hfront : ∀ e ∈ front, e.openStart < m.position)
  (hmarks : c.template.MarksLast front cur s cur₁.tagMark)
include hmem hfront hmarks

/-- Of the start tag in which a marker stands the size is kept if it had been passed before:
no other one is passed on the way to the marker. -/
theorem Arrives.marked_of_behind (hi : i < k) (he : c.template.elements[i]? = some e)
    (hm : cur₁.marker < e.firstInnerMarker) (h : c.Marked data cur₀ s₀ cur s e) :
    c.Marked data cur₀ s₀ cur₁ s₁ e := by
  rcases hmarks with ⟨-, hmark⟩ | ⟨last, hlast, -⟩
  · exact h.extends (ha.session_eq ▸ .of_wrote _ _ _ s) hmark
  · obtain ⟨j, hj, -, hj'⟩ := (hmem last).mp hlast
    have hle := ha.index_le hw hapart he hj' (hfront last hlast) hm
    omega

/-- And so it is if it is passed on the way: then it is the last one. -/
theorem Arrives.marked_of_front (hreach : c.Reaches data cur₀ s₀ cur s) (hin : e ∈ front)
    (hahead : cur.offset ≤ e.openStart) (hm : cur₁.marker < e.firstInnerMarker) :
    c.Marked data cur₀ s₀ cur₁ s₁ e := by
  obtain ⟨i, -, -, he⟩ := (hmem e).mp hin
  rcases hmarks with ⟨hall, -⟩ | ⟨last, hlast, -, hmax, hmark⟩
  · exact absurd hahead (Nat.not_le_of_lt (hall e hin))
  · obtain ⟨j, -, -, hj⟩ := (hmem last).mp hlast
    have hji := ha.index_le hw hapart he hj (hfront last hlast) hm
    have hij : i ≤ j := by
      refine Nat.le_of_not_lt fun hlt => ?_
      exact absurd (hmax e hin) (Nat.not_le_of_lt (hapart.openStart_lt hw.toWellFormed hlt hj he))
    obtain rfl := Nat.le_antisymm hij hji
    cases he.symm.trans hj
    refine ⟨_, .intro hreach ha hahead (hfront e hin), hmark, ?_⟩
    rw [ha.session_eq, ← c.template.wrote_wrote hahead (Nat.le_of_lt (hfront e hin))]
    exact Session.Extends.of_wrote _ _ _ _

omit hmem hfront hmarks

/-- Start tags are passed on the way to a marker, and the one in which it stands is kept. -/
theorem Arrives.marks (hreach : c.Reaches data cur₀ s₀ cur s)
    (h : c.Marks data cur₀ s₀ cur s) : c.Marks data cur₀ s₀ cur₁ s₁ := by
  obtain ⟨k, hk⟩ := h
  obtain ⟨front, hsplit, hfront, hhead, hmarks⟩ := Template.exists_passed ha.run_eq
  rw [hk.elements_eq] at hsplit
  have hmem := fun e => Template.mem_front_iff (e := e) hsplit
  have hrest := Template.drop_of_front hsplit
  have hmarker := ha.marker_cursor
  refine ⟨k + front.length, hrest, fun i e hi he => ?_, fun i e hi he _ => ?_⟩
  · rw [ha.offset_cursor]
    rcases Nat.lt_or_ge i k with hik | hik
    · obtain ⟨hstart, hmarked⟩ := hk.behind i e hik he
      exact ⟨Nat.lt_of_lt_of_le hstart ha.offset_le.1, fun hm =>
        ha.marked_of_behind hw hapart hmem hfront hmarks hik he hm (hmarked (hmarker ▸ hm))⟩
    · have hin := (hmem e).mpr ⟨i, hik, hi, he⟩
      exact ⟨hfront e hin, fun hm => ha.marked_of_front hw hapart hmem hfront hmarks hreach hin
        (hk.ahead i e hik he (hmarker ▸ hm)) hm⟩
  · rw [ha.offset_cursor]
    rw [hrest, List.head?_drop] at hhead
    exact hapart.le_openStart hw.toWellFormed (fun e he => hhead e (by simpa using he)) hi he

end Arrives

/-! ## 4. Transitions -/

theorem marks_behindTag (h : c.Marks data cur₀ s₀ cur s) (scope : AttributeScope) :
    c.Marks data cur₀ s₀ (c.behindTag cur e scope) s := by
  unfold behindTag planJump
  split
  · split <;> exact h.extends (.refl s) (Nat.le_succ _) rfl rfl rfl
  · exact h.extends (.refl s) (Nat.le_succ _) rfl rfl rfl

section Transitions

variable (hw : c.WellFormed content?) (hapart : c.template.Apart) (ht : c.template.Extends data)
include hw hapart ht

theorem CallsInTag.marks {scope : AttributeScope}
    (hcalls : c.CallsInTag data cur s index e cur₁ scope s₁)
    (hreach : c.Reaches data cur₀ s₀ cur s) (h : c.Marks data cur₀ s₀ cur s) :
    c.Marks data cur₀ s₀ cur₁ s₁ := by
  obtain ⟨m, s₂, ha, hadded⟩ := hcalls.extends_of_callback ht
  exact (ha.marks hw hapart hreach h).extends hadded (Nat.le_refl _) rfl rfl rfl

/-- A step keeps what is known of the start tags. -/
theorem Transition.marks (htrans : c.Transition data cur s (.goto cur') s')
    (hreach : c.Reaches data cur₀ s₀ cur s) (hp : c.Placed cur)
    (hstack : cur.stack.Each Render.Extends) (h : c.Marks data cur₀ s₀ cur s) :
    c.Marks data cur₀ s₀ cur' s' := by
  generalize hn : Next.goto cur' = next at htrans
  cases htrans with
  | jumpOut | elementOut | contentOut | finish => cases hn
  | jump hj =>
    cases hn
    obtain ⟨rfl, -⟩ := Template.advance_eq_ok hj.run_eq
    obtain ⟨index, e, hin, hend, rfl⟩ := hp.jump _ hj.jump_eq
    have hclosed := hw.closed index e hin.element
    exact h.land hw (hw.cuts_element hin.element hclosed.closeStart_le)
      (hapart.betweenTags hin.element (Nat.le_refl _) hclosed.closeStart_le) (Nat.le_refl _) rfl
      (Nat.le_trans hend hclosed.openEnd_le) rfl
  | plain ha hm hrun =>
    obtain ⟨rfl, -⟩ := settled_eq_goto hn.symm
    have hcallback := ht _ _ (.plain _) ha.marker_eq (by rw [hm]; rfl)
    exact (ha.marks hw hapart hreach h).extends (hcallback _ _ _ hrun) (Nat.le_succ _) rfl rfl rfl
  | inTag hcalls =>
    obtain ⟨rfl, -⟩ := settled_eq_goto hn.symm
    exact marks_behindTag (hcalls.marks hw hapart ht hreach h) _
  | dropElement hcalls =>
    cases hn
    have h₁ := hcalls.marks hw hapart ht hreach h
    obtain ⟨ha, hm, he, -⟩ := hcalls
    obtain ⟨-, hend, -⟩ := (ha.stands hw hp).inTag hw hm he
    have hclosed := hw.closed _ _ he
    exact h₁.land hw (hw.cuts_element he (Nat.le_refl _))
      (hapart.betweenTags he hclosed.closeStart_le (Nat.le_refl _)) (Nat.le_refl _) rfl
      (Nat.le_trans hend (Nat.le_trans hclosed.openEnd_le hclosed.closeStart_le)) rfl
  | wrapperStart hcalls =>
    obtain ⟨rfl, -⟩ := settled_eq_goto hn.symm
    obtain ⟨ha, hm, hframe, hrun⟩ := hcalls
    have hcallback := ht _ _ (.wrapper _) ha.marker_eq (by rw [hm]; rfl)
    have hstack₁ := (ha.stack_cursor ▸ hstack : _).of_frame hframe
    exact (ha.marks hw hapart hreach h).extends (hcallback _ _ _ _ _ hstack₁ hrun).1
      (Nat.le_succ _) rfl rfl rfl
  | dropContent hcalls _ _ hmarker hlt =>
    obtain ⟨rfl, -⟩ := settled_eq_goto hn.symm
    obtain ⟨hna, hopen, -⟩ := hcalls.stands_end hw hp hmarker
    have hbefore := Nat.le_of_lt (lt_of_mem_openBefore (hopen ▸ List.mem_cons_self))
    obtain ⟨ha, -, -, -⟩ := hcalls
    have hle := hw.ordered.position_mono _ _ _ _ hbefore ha.marker_eq hmarker
    exact (ha.marks hw hapart hreach h).land hw (hw.cuts_marker hmarker)
      (hw.betweenTags_marker hmarker (by simp [Marker.boundsWrapper, hna])) (Nat.le_succ _) rfl
      (ha.offset_cursor ▸ hle) rfl
  | wrapperEnd ha _ _ _ hframe hrun =>
    obtain ⟨rfl, -⟩ := settled_eq_goto hn.symm
    have hstack₁ := (ha.stack_cursor ▸ hstack : _).of_frame hframe
    exact (ha.marks hw hapart hreach h).extends (extends_runEndings hstack₁ _ _ _ hrun)
      (Nat.le_succ _) rfl rfl rfl
  | endBefore ha =>
    cases hn
    exact (ha.marks hw hapart hreach h).extends (.refl _) (Nat.le_succ _) rfl rfl rfl

end Transitions

/-! ## 5. Dropped elements -/

/-- A walk over the component may begin at the place: no wrapper is open there, and it is not
inside of a start tag. -/
structure BeginsAt (c : Component ω δ) (place : Place) : Prop where
  placed : c.Placed (c.cursorAt place (EndingStack.ofDepth c.maxNesting))
  between : c.template.BetweenTags place.offset

theorem beginsAt_entry (hw : c.WellFormed content?) : c.BeginsAt c.entry := by
  refine ⟨placed_cursorAt_entry hw _, ?_⟩
  cases hw.part with
  | whole _ hentry | preContent _ hentry => exact hentry ▸ c.template.betweenTags_zero
  | postContent => exact hw.betweenTags_content

/-- The element `e` is dropped by a callback at the marker to which the walk that began at
`cur₀` has come at `cur`; the callback has returned at the cursor `cur₁` with the session `s₁`. -/
structure Drops (c : Component ω δ) (data : δ) (cur₀ : Cursor ω) (s₀ : Session ω) (cur : Cursor ω)
    (s : Session ω) (e : Element) (cur₁ : Cursor ω) (s₁ : Session ω) (output : ByteArray) :
    Prop where
  /-- This was the output when the literal bytes up to the `<` had just been written. -/
  output_iff : ∀ other, c.OutputAt data cur₀ s₀ e.openStart other ↔ other = output
  /-- Its size is kept, so it need not be guessed. -/
  tagMark_eq : cur₁.tagMark = some { start := e.openStart, size := output.size }
  /-- After the callback this is the output again. Nothing else is changed. -/
  output_eq : ∃ next, c.step data cur s =
    .ok (next, { s₁ with response := { s₁.response with output := output } })
  /-- The walk goes on behind the element, in the same wrappers, with no jump planned. -/
  step_eq : ¬c.DropsContent e → c.step data cur s =
    .ok (.goto { cur₁ with
      marker := e.nextMarker
      offset := e.closeEnd
      depth := cur.depth
      jump := none }, { s₁ with response := { s₁.response with output := output } })
  /-- No byte and no marker of the element is rendered any more, and it ends in the component. -/
  behind : ¬c.DropsContent e →
    (∀ next s' cur' s'', c.step data cur s = .ok (.goto next, s') →
      c.Reaches data next s' cur' s'' → e.nextMarker ≤ cur'.marker ∧ e.closeEnd ≤ cur'.offset) ∧
    e.nextMarker ≤ c.exit.marker ∧ e.closeEnd ≤ c.exit.offset

/-- In all walks that begin at the place, elements are dropped with all that has been put out in
their start tags. -/
def DropsElements (c : Component ω δ) (data : δ) (place : Place) : Prop :=
  ∀ (s₀ : Session ω) (cur : Cursor ω) (s : Session ω) (index : Nat) (e : Element)
    (cur₁ : Cursor ω) (scope : AttributeScope) (s₁ : Session ω),
    s₀.response.halted = false →
    c.Reaches data (c.cursorAt place (EndingStack.ofDepth c.maxNesting)) s₀ cur s →
    c.CallsInTag data cur s index e cur₁ scope s₁ →
    s₁.response.halted = false → scope.skipElement = true →
    ∃ output, c.Drops data (c.cursorAt place (EndingStack.ofDepth c.maxNesting)) s₀ cur s e cur₁
      s₁ output

section Drops

variable (hw : c.WellFormed content?) (hapart : c.template.Apart) (ht : c.template.Extends data)
include hw hapart ht

theorem Reaches.marks {stack : EndingStack (Ending ω)} (hbegins : c.BeginsAt place)
    (hstack : stack.Each Render.Extends) (hs₀ : s₀.response.halted = false)
    (h : c.Reaches data (c.cursorAt place stack) s₀ cur s) :
    c.Marks data (c.cursorAt place stack) s₀ cur s := by
  have hplaced : c.Placed (c.cursorAt place stack) := hbegins.placed
  refine (h.invariant (fun cur s => c.Marks data (c.cursorAt place stack) s₀ cur s) hs₀
    (marks_cursorAt hw hplaced.cuts hbegins.between stack _ _ _) ?_).2
  intro cur s cur' s' hreach _ h htrans
  exact htrans.marks hw hapart ht hreach (hreach.placed hs₀ hw hplaced)
    (hreach.extends hs₀ ht (extends_cursorAt c place hstack s₀)).stack h

/-- At a marker in a start tag the size of the output at that tag is kept. -/
theorem CallsInTag.marked {scope : AttributeScope}
    (hcalls : c.CallsInTag data cur s index e cur₁ scope s₁)
    (hreach : c.Reaches data cur₀ s₀ cur s) (hp : c.Placed cur)
    (h : c.Marks data cur₀ s₀ cur s) : c.Marked data cur₀ s₀ cur₁ s₁ e := by
  obtain ⟨passed, hpassed⟩ := hcalls.marks hw hapart ht hreach h
  obtain ⟨ha, hm, he, -⟩ := hcalls
  obtain ⟨hin, -, hlt⟩ := (ha.stands hw hp).inTag hw hm he
  rcases Nat.lt_or_ge index passed with hi | hi
  · exact (hpassed.behind index e hi he).2 hlt
  · exact absurd hin.start_lt (Nat.not_lt_of_le (hpassed.ahead index e hi he hlt))

theorem dropsElements (hbegins : c.BeginsAt place) : c.DropsElements data place := by
  intro s₀ cur s index e cur₁ scope s₁ hs₀ hreach hcalls hs₁ hk
  have hp := hreach.placed hs₀ hw hbegins.placed
  have hs := hreach.running hs₀
  have hmarks := hreach.marks hw hapart ht hbegins (.ofDepth _) hs₀
  obtain ⟨output, hat, hmark, hmore⟩ := hcalls.marked hw hapart ht hreach hp hmarks
  have hcut : CutsBack cur₁ e s₁ { s₁ with response := { s₁.response with output := output } } := by
    obtain ⟨more, hmore⟩ := hmore
    refine ⟨output.size, ?_, ?_⟩
    · rw [sizeBefore, hmark]
      exact congrFun (if_pos rfl) s₁
    · rw [Response.truncate, hmore, ByteArray.extract_append_eq_left rfl]
  have hstep := hcalls.step_eq hs
  rw [if_pos ⟨hs₁, hk⟩, dropElement_run hcut] at hstep
  refine ⟨output, fun other => ⟨fun h => hat.unique h hw hbegins.placed hs₀, fun h => h ▸ hat⟩,
    hmark, ?_, fun hc => ?_, fun hc => ?_⟩
  · by_cases hc : c.DropsContent e
    · rw [if_pos hc, swallow_of_handsOver (.inr hc.1)] at hstep
      exact ⟨_, hstep⟩
    · rw [if_neg hc] at hstep
      exact ⟨_, hstep⟩
  · rw [if_neg hc] at hstep
    obtain ⟨ha, -, -, -⟩ := hcalls
    obtain ⟨elements, tagMark, rfl⟩ := ha.cursor_eq
    exact hstep
  · rw [if_neg hc] at hstep
    have htrans := Transition.dropElement hcalls hs₁ hk hcut hc
    obtain ⟨ha, hm, he, -⟩ := hcalls
    obtain ⟨hin, -, -⟩ := (ha.stands hw hp).inTag hw hm he
    refine ⟨?_, hw.ends_within he (Nat.lt_of_lt_of_le hin.start_lt ?_) hc⟩
    · intro next s' cur' s'' hnext hlater
      cases hnext.symm.trans hstep
      have hb := hlater.before hs₁ hw (htrans.placed hw hp)
      exact ⟨hb.marker_le, hb.offset_le⟩
    · exact (ha.stands hw hp).offset_le

end Drops

end Component

/-! ## 6. Compiled templates -/

/-- Rendering the wrapper may go on at the place behind its content marker: there, or behind
something that has been dropped with it. -/
def Wrapper.ResumesAt (w : Wrapper ω δ) (data : δ) (place : Place) : Prop :=
  place = w.content ∨ ∃ s carried s',
    w.preContent.run data w.preContent.entry s = .ok (.swallowed place carried, s')

/-- What is dropped does not end inside of a start tag. -/
theorem Component.Executes.betweenTags {c : Component ω δ} {data : δ} {s₀ : Session ω} {skip : Skip}
    {opened : List Nat} {content? : Option Place} {place : Place}
    (h : c.Executes data s₀ skip opened) (hw : c.WellFormed content?) (hapart : c.template.Apart)
    (htarget : skip.target? c.template = some place) : c.template.BetweenTags place.offset := by
  cases h with
  | wrapperContent hv hcalls =>
    obtain ⟨n, hn, rfl⟩ := Option.map_eq_some_iff.mp htarget
    obtain ⟨hna, -, -⟩ := hcalls.stands_end hw (hv.tracked hw).placed hn
    exact hw.betweenTags_marker hn (by simp [Marker.boundsWrapper, hna])
  | element =>
    obtain ⟨e, he, rfl⟩ := Option.map_eq_some_iff.mp htarget
    exact hapart.betweenTags he (hw.closed _ e he).closeStart_le (Nat.le_refl _)
  | elementContent =>
    obtain ⟨e, he, rfl⟩ := Option.map_eq_some_iff.mp htarget
    exact hapart.betweenTags he (Nat.le_refl _) (hw.closed _ e he).closeStart_le

section Compiled

variable {source : String} {declarations : List (Declaration ω δ)} {w : Wrapper ω δ} {data : δ}

theorem Wrapper.beginsAt_of_resumable {place : Place}
    (h : w.template.Resumable w.content place)
    (hbetween : w.template.BetweenTags place.offset) : w.postContent.BeginsAt place :=
  ⟨Component.placed_cursorAt (c := w.postContent) h.toCuts h.marker_ge h.marker_le h.offset_le
    (Component.opened_eq_nil h.opened_lt), hbetween⟩

/-- The place is that of the content marker, or the one behind something that is dropped. -/
theorem Wrapper.ResumesAt.content_or_leadsTo (h : Wrapper.compile source declarations = .ok w)
    {place : Place} (hplace : w.ResumesAt data place) : place = w.content ∨ ∃ skip : Skip,
      skip.LeadsTo w.template w.content place ∧ w.template.BetweenTags place.offset := by
  rcases hplace with rfl | ⟨s, carried, s', hrun⟩
  · exact .inl rfl
  · obtain ⟨skip, opened, hskip, hcov⟩ :=
      Component.exists_executes_of_run (Wrapper.classified_of_compile h) hrun
    obtain ⟨resume, frames, t, hrun', hleads, -⟩ := Wrapper.before_of_executes h hskip hcov
    cases hrun.symm.trans hrun'
    exact .inr ⟨skip, hleads, hskip.betweenTags (Wrapper.wellFormed_of_compile h).preContent
      (Wrapper.apart_of_compile h) hleads.target_eq⟩

theorem Wrapper.ResumesAt.beginsAt (h : Wrapper.compile source declarations = .ok w)
    {place : Place} (hplace : w.ResumesAt data place) : w.postContent.BeginsAt place := by
  have hw := Wrapper.wellFormed_of_compile h
  rcases hplace.content_or_leadsTo h with rfl | ⟨skip, hleads, hbetween⟩
  · exact beginsAt_of_resumable hw.resumable_content
      (Template.WellFormed.betweenTags_content hw)
  · exact beginsAt_of_resumable hleads.resumable hbetween

end Compiled

/-- Whenever a callback in a start tag of a compiled template asks to drop the element, and does
not halt the response, the output is right after it what it was when the literal bytes up to the
`<` had just been written, and rendering goes on behind the element: in a component, in the part
of a wrapper before its content marker unless the element holds that, and in the part behind it
wherever that is resumed. All that is asked of the callbacks is that they only add to the output.
Then so does whatever is rendered of the template, and other callbacks may render it. -/
theorem dropsElements_of_compile {declarations : List (Declaration ω δ)}
    (hd : ∀ d ∈ declarations, d.Extends) (source : String) (data : δ) :
    (∀ c, Component.compile source declarations = .ok c →
      c.DropsElements data c.entry ∧ Render.Extends (c.render data)) ∧
    ∀ w, Wrapper.compile source declarations = .ok w →
      w.preContent.DropsElements data w.preContent.entry ∧
      (∀ place, w.ResumesAt data place → w.postContent.DropsElements data place) ∧
      Render.Extends (w.preContent.render data) ∧ Render.Extends (w.postContent.render data) ∧
      (∀ payload, Render.Extends payload → Render.Extends (w.render data payload)) ∧
      WrapperRender.Extends (WrapperRender.wrap w data) := by
  have hcallbacks : ∀ d ∈ declarations, ∀ callback, d.callback = some callback →
      callback.Extends data := fun d hmem callback hc => hd d hmem callback hc data
  refine ⟨fun c h => ?_, fun w h => ?_⟩
  · have ht := Component.eachCallback_of_compile h hcallbacks
    have hw := Component.wellFormed_of_compile h
    exact ⟨Component.dropsElements hw (Component.apart_of_compile h) ht
      (Component.beginsAt_entry hw), Component.extends_render ht⟩
  · have ht := Wrapper.eachCallback_of_compile h hcallbacks
    have hw := Wrapper.wellFormed_of_compile h
    have hapart := Wrapper.apart_of_compile h
    exact ⟨Component.dropsElements hw.preContent hapart ht
        (Component.beginsAt_entry hw.preContent),
      fun place hplace => Component.dropsElements hw.postContent hapart ht (hplace.beginsAt h),
      Component.extends_render (c := w.preContent) ht,
      Component.extends_render (c := w.postContent) ht,
      fun _ hpayload => Wrapper.extends_render ht hpayload, WrapperRender.extends_wrap ht⟩

/-- The source `x<a title="${label}" ${first} ${second}>t</a>y`. -/
def droppedLinkSource : String :=
  "x<a title=\"$\x7blabel\x7d\" $\x7bfirst\x7d $\x7bsecond\x7d>t</a>y"

/-- The source `<i ${drop}>i</i>j`. -/
def droppedIconSource : String := "<i $\x7bdrop\x7d>i</i>j"

/-- Its declarations: the element is dropped. -/
def droppedIcon : List (Declaration Unit Unit) :=
  [.attributes "drop" fun _ => AttributeRender.skipElement]

/-- The declarations of `droppedLinkSource`: a label into which the icon is inserted, a callback
that writes an attribute and asks to drop the content, and one that asks to drop the element. -/
def droppedLink (icon : Component Unit Unit) : List (Declaration Unit Unit) :=
  [.plain "label" fun _ => do
    Render.respond (.write "<")
    icon.render (),
   .attributes "first" fun _ => do
    StateT.lift (Render.respond (.addAttribute "k" "v"))
    AttributeRender.skipContent,
   .attributes "second" fun _ => do
    StateT.lift (Render.respond (.addFlag "f"))
    AttributeRender.skipElement]

/-- Of the link nothing is left. -/
theorem dropsElements_of_droppedLink :
    ∃ icon, Component.compile droppedIconSource droppedIcon = .ok icon ∧
      ∃ c, Component.compile droppedLinkSource (droppedLink icon) = .ok c ∧
        c.DropsElements () c.entry ∧
        ∃ s, c.render () (.fresh ()) = .ok ((), s) ∧ s.response.output = "xy".toUTF8 := by
  have hrun : ((Component.compile droppedIconSource droppedIcon).toOption.any fun icon =>
      (Component.compile droppedLinkSource (droppedLink icon)).toOption.any fun c =>
        (c.render () (.fresh ())).toOption.any fun p =>
          p.2.response.output = "xy".toUTF8) = true := by
    decide +kernel
  obtain ⟨icon, hicon, hrun⟩ := exists_ok_of_any hrun
  obtain ⟨c, hc, hrun⟩ := exists_ok_of_any hrun
  obtain ⟨⟨⟨⟩, s⟩, hrender, hrun⟩ := exists_ok_of_any hrun
  have hdropped : ∀ d ∈ droppedIcon, d.Extends := by
    rintro d hmem _ hd ⟨⟩
    cases List.mem_singleton.mp hmem
    cases hd
    exact AttributeRender.extends_skipElement
  have hinner := ((dropsElements_of_compile hdropped _ ()).1 icon hicon).2
  have hlink : ∀ d ∈ droppedLink icon, d.Extends := by
    simp only [droppedLink, List.forall_mem_cons]
    refine ⟨?_, ?_, ?_, nofun⟩
    · rintro _ ⟨⟩ ⟨⟩
      exact Render.extends_bind (Render.extends_respond _) fun _ => hinner
    · rintro _ ⟨⟩ ⟨⟩
      exact AttributeRender.extends_bind
        (AttributeRender.extends_lift (Render.extends_respond _)) fun _ =>
          AttributeRender.extends_skipContent
    · rintro _ ⟨⟩ ⟨⟩
      exact AttributeRender.extends_bind
        (AttributeRender.extends_lift (Render.extends_respond _)) fun _ =>
          AttributeRender.extends_skipElement
  exact ⟨icon, hicon, c, hc, ((dropsElements_of_compile hlink _ ()).1 c hc).1, s, hrender,
    of_decide_eq_true hrun⟩

end HtmlTemplate
