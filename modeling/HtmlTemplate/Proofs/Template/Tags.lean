import HtmlTemplate.Proofs.Template.Items

/-!
# Elements of a compiled template and their tags

A template says of an element where its tags stand, in literal bytes and among the markers.
Rendering drops bytes by the one and markers by the other, and looks the element at an
offset up by bisection.

Results:
1. `Element.Fits`: the offsets of an element are those of a start tag in the literal bytes,
   and of the end tag that belongs to it if there is one; the markers before and behind each
   cut are those before and behind it in the bytes.
2. `elementsFit_of_compile`: all elements of a compiled template are like that, and stand
   in the order of their start tags.
-/

namespace HtmlTemplate

open Markup

variable {ω δ : Type}

/-! ## 1. Statements -/

/-- The literal bytes. -/
def Template.bytes (t : Template ω δ) : List UInt8 := t.html.data.toList

/-- The element has no end tag: its name is that of a void element, or its start tag is
self-closing. -/
def Element.ClosesItself (e : Element) (events : List SourceEvent) : Prop :=
  isVoid e.name = true ∨ e.startTag true ∈ events

/-- The element stands in the template where it says, in literal bytes and among markers. -/
structure Element.Fits (e : Element) (t : Template ω δ) (events : List SourceEvent) : Prop where
  openStart_lt : e.openStart < e.openEnd
  openEnd_le : e.openEnd ≤ e.closeStart
  closeStart_le : e.closeStart ≤ e.closeEnd
  closeEnd_le : e.closeEnd ≤ t.html.size
  /-- The start tag is one of the source. -/
  startTag_mem : ∃ selfClosing, e.startTag selfClosing ∈ events
  openStart_byte : t.bytes[e.openStart]? = some '<'.toUInt8
  startTag_begins : Begins startFront e.name (t.bytes.drop e.openStart)
  openEnd_byte : t.bytes[e.openEnd - 1]? = some '>'.toUInt8
  /-- In front of the `>` of a self-closing tag stands a slash. -/
  selfClosing_slash : e.startTag true ∈ events →
    EndsInSlash ((t.bytes.take e.openEnd).drop e.openStart).dropLast
  /-- The end tag is one of the source, starts with `</` and the name of the element, and
  ends with `>`. -/
  endTag : ¬e.ClosesItself events → e.endTag ∈ events ∧
    Begins endFront e.name (t.bytes.drop e.closeStart) ∧
      t.bytes[e.closeEnd - 1]? = some '>'.toUInt8
  alone : e.ClosesItself events → e.closeStart = e.openEnd ∧ e.closeEnd = e.openEnd
  lt_firstInner_iff : ∀ (i : Nat) (m : Marker ω δ), t.markers[i]? = some m →
    (i < e.firstInnerMarker ↔ m.position < e.openEnd)
  within : ∀ (i : Nat) (m : Marker ω δ), t.markers[i]? = some m → i < e.nextMarker →
    m.position ≤ e.closeStart
  behind : ∀ (i : Nat) (m : Marker ω δ), t.markers[i]? = some m → e.nextMarker ≤ i →
    e.closeEnd ≤ m.position

/-- The elements of the template stand where they say, in the order of their start tags, and
their attribute markers stand in these. -/
structure Template.ElementsFit (t : Template ω δ) (events : List SourceEvent) : Prop where
  increasing : ∀ (i j : Nat) (e e' : Element), i < j → t.elements[i]? = some e →
    t.elements[j]? = some e' → e.openStart < e'.openStart
  fits : ∀ (i : Nat) (e : Element), t.elements[i]? = some e → e.Fits t events
  owner : ∀ (i : Nat) (m : Marker ω δ) (run : δ → AttributeRender ω Unit) (index : Nat),
    t.markers[i]? = some m → m.action = .attributes run index →
      ∃ e, t.elements[index]? = some e ∧ e.openStart < m.position ∧ m.position < e.openEnd

/-! ## 2. Tags of the scan -/

theorem Scan.Right.lt_of_span {s : Scan} {html : List UInt8} (h : s.Right html) {e : SourceEvent}
    {start stop : Nat} (he : e ∈ s.events) (hspan : e.span? = some (start, stop)) :
    start < stop := by
  have hspelled := h.spelled e he
  cases e with
  | startTag name selfClosing carries start' stop' =>
    cases hspan
    exact hspelled.1.1
  | endTag name start' stop' =>
    cases hspan
    exact hspelled.1
  | openWrapper | closeWrapper => cases hspan

/-- Tags in different places of the list start in different places of the bytes. -/
theorem Scan.Right.index_unique {s : Scan} {html : List UInt8} (h : s.Right html) {i j : Nat}
    {e e' : SourceEvent} {start stop stop' : Nat} (hi : s.events[i]? = some e)
    (hj : s.events[j]? = some e') (hspan : e.span? = some (start, stop))
    (hspan' : e'.span? = some (start, stop')) : i = j := by
  have hapart := List.pairwise_filterMap.mp h.apart
  -- The tag that comes first would end before it starts.
  have hno : ∀ {i j : Nat} {e e' : SourceEvent} {stop stop' : Nat}, s.events[i]? = some e →
      s.events[j]? = some e' → e.span? = some (start, stop) → e'.span? = some (start, stop') →
        ¬i < j := by
    intro i j e e' stop stop' hi hj hspan hspan' hij
    have hlt := h.lt_of_span (List.mem_of_getElem? hi) hspan
    obtain ⟨hilt, rfl⟩ := List.getElem?_eq_some_iff.mp hi
    obtain ⟨hjlt, rfl⟩ := List.getElem?_eq_some_iff.mp hj
    have hle : stop ≤ start :=
      List.pairwise_iff_getElem.mp hapart i j hilt hjlt hij _ hspan _ hspan'
    omega
  have hij := hno hi hj hspan hspan'
  have hji := hno hj hi hspan' hspan
  omega

/-- A tag is known by its start. -/
theorem Scan.Right.eq_of_start {s : Scan} {html : List UInt8} (h : s.Right html)
    {e e' : SourceEvent} {start stop stop' : Nat} (he : e ∈ s.events) (he' : e' ∈ s.events)
    (hspan : e.span? = some (start, stop)) (hspan' : e'.span? = some (start, stop')) : e = e' := by
  obtain ⟨i, hi⟩ := List.mem_iff_getElem?.mp he
  obtain ⟨j, hj⟩ := List.mem_iff_getElem?.mp he'
  cases h.index_unique hi hj hspan hspan'
  exact Option.some.inj (hi.symm.trans hj)

theorem Begins.getElem? {front : List UInt8} {name : TagName} {bytes : List UInt8} {start : Nat}
    {byte : UInt8} (h : Begins (byte :: front) name (bytes.drop start)) :
    bytes[start]? = some byte := by
  obtain ⟨rest, hdrop, -⟩ := h
  have hhead : (bytes.drop start)[0]? = some byte := by rw [hdrop]; rfl
  rwa [List.getElem?_drop, Nat.add_zero] at hhead

/-- An element with an end tag among the events has that which belongs to its start tag. -/
theorem Element.Met.exists_ended {e : Element} {events : List SourceEvent} (h : e.Met events)
    (hnot : ¬e.ClosesItself events) :
    ∃ front inside rest, events = front ++ e.startTag false :: (inside ++ e.endTag :: rest) ∧
      isVoid e.name = false ∧ Brackets.Balanced (SourceEvent.element? e.name) inside := by
  cases h with
  | @alone front rest selfClosing hevents hself =>
    refine absurd ?_ hnot
    rcases Bool.or_eq_true_iff.mp hself with rfl | hvoid
    · exact .inr (by simp [hevents])
    · exact .inl hvoid
  | @ended front inside rest hevents hvoid htags =>
    exact ⟨front, inside, rest, hevents, hvoid, htags⟩

/-! ## 3. Compiled templates -/

namespace Assembly

variable {a : Assembly ω δ} {s : Scan}

/-- An element whose end tag has been met fits the template. -/
theorem Recounted.fits (h : Recounted a s) {e : Element} {content? : Option Place}
    (hclosed : e.Closed a.markers a.html.size content?) (hmet : e.Met s.events) :
    e.Fits a.template s.events := by
  obtain ⟨selfClosing, hstart⟩ := hmet.startTag_mem
  obtain ⟨⟨-, -, hopenEnd, hbegins⟩, -⟩ := h.right.spelled _ hstart
  refine
    { openStart_lt := hclosed.start_lt
      openEnd_le := hclosed.openEnd_le
      closeStart_le := hclosed.closeStart_le
      closeEnd_le := hclosed.closeEnd_le
      startTag_mem := ⟨selfClosing, hstart⟩
      openStart_byte := hbegins.getElem?
      startTag_begins := hbegins
      openEnd_byte := hopenEnd
      selfClosing_slash := fun htrue => (h.right.spelled _ htrue).2 rfl
      endTag := fun hnot => ?_
      alone := fun halone => ?_
      lt_firstInner_iff := hclosed.inner_iff
      within := hclosed.within
      behind := hclosed.behind }
  · obtain ⟨front, inside, rest, hevents, -⟩ := hmet.exists_ended hnot
    have hend : e.endTag ∈ s.events := by simp [hevents]
    obtain ⟨-, -, hcloseEnd, hbegins'⟩ := h.right.spelled _ hend
    exact ⟨hend, hbegins', hcloseEnd⟩
  · cases hmet with
    | alone hevents hself hcloseStart hcloseEnd => exact ⟨hcloseStart, hcloseEnd⟩
    | ended hevents hvoid =>
      -- Its start tag is listed as one that is not self-closing.
      have hfalse : e.startTag false ∈ s.events := by simp [hevents]
      rcases halone with hvoid' | htrue
      · rw [hvoid] at hvoid'
        cases hvoid'
      · have heq := h.right.eq_of_start htrue hfalse rfl rfl
        simp [Element.startTag] at heq

theorem elementsFit_of_compile? {source : String} {declarations : List (Declaration ω δ)}
    {t : Template ω δ} (h : compile? source declarations = .ok (a, t)) :
    t.ElementsFit (SourceEvent.ofSource source declarations) := by
  have hrecounted := recounted_of_compile? h
  have hwell := wellFormed_of_compile? h
  obtain ⟨counts, -, hfinish⟩ := compile?_eq_ok h
  obtain ⟨-, -, hu, rfl⟩ := finish_eq_ok hfinish
  refine ⟨fun i j e e' hij he he' => ?_, fun i e he => ?_, fun i m run index hm ha => ?_⟩
  · have hget : ∀ {i : Nat} {e : Element}, a.reader.table.elements[i]? = some e →
        a.reader.table.starts[i]? = some e.openStart := by
      intro i e he
      simp [ElementTable.starts, he]
    obtain ⟨hi, hi'⟩ := List.getElem?_eq_some_iff.mp (hget he)
    obtain ⟨hj, hj'⟩ := List.getElem?_eq_some_iff.mp (hget he')
    have hlt := List.pairwise_iff_getElem.mp hrecounted.increasing i j hi hj hij
    rwa [hi', hj'] at hlt
  · obtain ⟨hcurrent, -⟩ := hrecounted.toConsistent.closed_of_finish hu he
    have hmet : e.Met (SourceEvent.ofSource source declarations) := by
      rcases hrecounted.recounts.met i e he with hc | ⟨p, hp, -⟩ | hmet
      · rw [hcurrent] at hc
        cases hc
      · cases hpending : a.reader.table.pending with
        | nil =>
          rw [hpending] at hp
          cases hp
        | cons q rest => simp [ElementTable.unclosed?, hpending] at hu
      · exact hmet
    exact hrecounted.fits (hwell.closed i e he) hmet
  · obtain ⟨e, he, hstart, hinner⟩ := hwell.owner i m run index hm ha
    exact ⟨e, he, hstart, ((hwell.closed index e he).inner_iff i m hm).mp hinner⟩

end Assembly

/-- The element table of every compiled template fits its literal bytes, its markers and the
tags of its source. -/
theorem elementsFit_of_compile (source : String) (declarations : List (Declaration ω δ)) :
    (∀ c, Component.compile source declarations = .ok c →
      c.template.ElementsFit (SourceEvent.ofSource source declarations)) ∧
      ∀ w, Wrapper.compile source declarations = .ok w →
        w.template.ElementsFit (SourceEvent.ofSource source declarations) := by
  constructor
  · intro c h
    obtain ⟨a, t, ht, -, rfl⟩ := Component.compile_eq_ok h
    exact Assembly.elementsFit_of_compile? ht
  · intro w h
    obtain ⟨a, t, content, ht, -, rfl⟩ := Wrapper.compile_eq_ok h
    exact Assembly.elementsFit_of_compile? ht

/-- The source `<ul ${list}><li ${item}>x</li><br ${rule}/></UL>`. -/
def nestedElementsSource : String :=
  "<ul $\x7blist\x7d><li $\x7bitem\x7d>x</li><br $\x7brule\x7d/></UL>"

/-- Its declarations: an attribute marker in each start tag. -/
def nestedElements : List (Declaration Unit Unit) :=
  [.attributes "list" fun _ => pure (), .attributes "item" fun _ => pure (),
   .attributes "rule" fun _ => pure ()]

/-- The literal bytes are `<ul ><li >x</li><br /></UL>`. -/
theorem elementsFit_of_nestedElements :
    ∃ c, Component.compile nestedElementsSource nestedElements = .ok c ∧
      c.template.elements.toList.map (fun e => [e.openStart, e.openEnd, e.closeStart, e.closeEnd]) =
        [[0, 5, 22, 27], [5, 10, 11, 16], [16, 22, 22, 22]] ∧
      c.template.ElementsFit (SourceEvent.ofSource nestedElementsSource nestedElements) := by
  have hcompile : (Component.compile nestedElementsSource nestedElements).toOption.any fun c =>
      c.template.elements.toList.map (fun e => [e.openStart, e.openEnd, e.closeStart, e.closeEnd]) =
        [[0, 5, 22, 27], [5, 10, 11, 16], [16, 22, 22, 22]] := by
    decide +kernel
  obtain ⟨c, hc, hvalues⟩ := exists_ok_of_any hcompile
  exact ⟨c, hc, of_decide_eq_true hvalues, (elementsFit_of_compile _ _).1 c hc⟩

end HtmlTemplate
