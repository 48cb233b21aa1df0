import HtmlTemplate.Proofs.Markup.Events
import HtmlTemplate.Proofs.Template.Tracking

/-!
# The table of elements and the events

An element table counts open elements of a name and compares wrapper depths, instead of
keeping the tags that it has seen. `Recounts` says that its counts are those of the events
met so far, so that an element in the table is a start tag with attribute markers, with the
end tag that belongs to it.

Results:
1. `Element.Met`: the tags of an element among the events.
2. `TagReader.Recounts`: what the table says of the events. It is kept when bytes are read
   (`Recounts.step`, `Recounts.feed`), and at tokens (`Recounts.interrupt`,
   `Recounts.attach`, `Recounts.openWrapper`, `Recounts.closeWrapper`,
   `Recounts.markContent`).
3. `Crossed`: a wrapper is opened on one side of a tag of an element and closed on the
   other. This is so when the table refuses an end tag (`Recounts.crossed_of_step`) or a
   wrapper end (`Recounts.crossed_of_closeWrapper`).
-/

namespace HtmlTemplate

open Markup Brackets

/-! ## 1. Tags of an element -/

namespace Element

/-- The start tag of an element with attribute markers. -/
def startTag (e : Element) (selfClosing : Bool) : SourceEvent :=
  .startTag e.name selfClosing true e.openStart e.openEnd

/-- The end tag of an element. -/
def endTag (e : Element) : SourceEvent := .endTag e.name e.closeStart e.closeEnd

/-- The tags of the element are among the events: a start tag that closes it, or a start tag
and the end tag that belongs to it, where the same wrappers are open. -/
inductive Met (events : List SourceEvent) (e : Element) : Prop
  | alone {front rest : List SourceEvent} {selfClosing : Bool} :
      events = front ++ e.startTag selfClosing :: rest →
      (selfClosing || isVoid e.name) = true → e.closeStart = e.openEnd → e.closeEnd = e.openEnd →
      Met events e
  | ended {front inside rest : List SourceEvent} :
      events = front ++ e.startTag false :: (inside ++ e.endTag :: rest) →
      isVoid e.name = false → Brackets.Balanced (SourceEvent.element? e.name) inside →
      Brackets.Balanced SourceEvent.wrapper? inside → Met events e

theorem Met.append {events : List SourceEvent} {e : Element} (h : Met events e)
    (more : List SourceEvent) : Met (events ++ more) e := by
  cases h with
  | @alone front rest selfClosing h hself hstart hend =>
    refine .alone (?_ : _ = front ++ e.startTag selfClosing :: (rest ++ more)) hself hstart hend
    rw [h]
    simp
  | @ended front inside rest h hvoid htags hwrappers =>
    refine .ended (?_ : _ = front ++ e.startTag false :: (inside ++ e.endTag :: (rest ++ more)))
      hvoid htags hwrappers
    rw [h]
    simp

theorem Met.startTag_mem {events : List SourceEvent} {e : Element} (h : Met events e) :
    ∃ selfClosing, e.startTag selfClosing ∈ events := by
  cases h with
  | @alone front rest selfClosing h => exact ⟨selfClosing, by simp [h]⟩
  | ended h => exact ⟨false, by simp [h]⟩

end Element

/-- Since its start tag an element waits for its end tag: the events in front of the tag and
behind it have the depths that the table knows. -/
structure OpenElement.Awaits (p : OpenElement) (front inside : List SourceEvent) : Prop where
  void : isVoid p.name = false
  depth_eq : rise SourceEvent.wrapper? front = p.depth
  wrappers : NeverBelow SourceEvent.wrapper? inside
  tags : NeverBelow (SourceEvent.element? p.name) inside
  nested_eq : rise (SourceEvent.element? p.name) inside = p.nested

/-- One more event is met, which does not take the element out of its wrappers. -/
theorem OpenElement.Awaits.concat {p q : OpenElement} {front inside : List SourceEvent}
    {e : SourceEvent} (h : p.Awaits front inside) (hname : q.name = p.name)
    (hdepth : q.depth = p.depth)
    (hwrapper : 0 ≤ rise SourceEvent.wrapper? inside + Bracket.rise e.wrapper?)
    (hnested : (p.nested : Int) + Bracket.rise (e.element? p.name) = q.nested) :
    q.Awaits front (inside ++ [e]) := by
  refine ⟨hname ▸ h.void, hdepth ▸ h.depth_eq, neverBelow_concat h.wrappers hwrapper, ?_, ?_⟩
  · rw [hname]
    refine neverBelow_concat h.tags ?_
    rw [h.nested_eq, hnested]
    exact Int.natCast_nonneg _
  · rw [hname, rise_append, h.nested_eq, rise_cons, rise_nil, Int.add_zero, hnested]

/-! ## 2. The table and the events -/

/-- Behind the name of a start tag. -/
def TagState.behindName : TagState → Bool
  | inTag => true
  | quoted _ => true
  | _ => false

/-- Behind its name a start tag keeps it, up to its end. -/
theorem TagLexer.step_behindName {l : TagLexer} (h : l.state.behindName = true) (byte : UInt8) :
    ((l.step byte).2 = none ∧ (l.step byte).1.state.behindName = true ∧
      (l.step byte).1.name = l.name) ∨
      ∃ selfClosing, (l.step byte).2 = some (.opening l.name selfClosing (l.offset + 1)) := by
  unfold step read
  cases hs : l.state with
  | inTag =>
    simp only [readInTag, endStartTag]
    split
    · split <;> exact .inr ⟨l.selfClosing, rfl⟩
    · split
      · exact .inl ⟨rfl, rfl, rfl⟩
      · split
        · exact .inl ⟨rfl, by rw [hs]; rfl, rfl⟩
        · split
          · exact .inl ⟨rfl, by rw [hs]; rfl, rfl⟩
          · exact .inl ⟨rfl, by rw [hs]; rfl, rfl⟩
  | quoted quote =>
    refine .inl ⟨rfl, ?_, ?_⟩
    · simp only
      split
      · rfl
      · rw [hs]
        rfl
    · simp only
      split <;> rfl
  | _ =>
    rw [hs] at h
    cases h

/-- A marker ends the name of the start tag in which it stands. -/
theorem TagReader.behindName_of_inStartTag {r : TagReader} (h : r.interrupt.inStartTag = true) :
    r.interrupt.lexer.state.behindName = true := by
  unfold inStartTag at h
  show r.lexer.state.interrupted.behindName = true
  replace h : r.lexer.state.interrupted.inStartTag = true := h
  cases hs : r.lexer.state <;> rw [hs] at h <;> first | rfl | cases h

/-- The table agrees with the events met so far, at the given wrapper depth. -/
structure TagReader.Recounts (r : TagReader) (s : Scan) (depth : Nat) : Prop where
  lexer_eq : s.lexer = r.lexer
  depth_eq : rise SourceEvent.wrapper? s.events = depth
  carries_eq : s.carries = r.table.current.isSome
  /-- The start tag in which the reader stands has its name. -/
  current : ∀ index, r.table.current = some index →
    r.lexer.state.behindName = true ∧
      ∀ e : Element, r.table.elements[index]? = some e → e.name = r.lexer.name
  pending : ∀ p ∈ r.table.pending, ∃ (e : Element) (front inside : List SourceEvent),
    r.table.elements[p.element]? = some e ∧ p.name = e.name ∧
      s.events = front ++ e.startTag false :: inside ∧ p.Awaits front inside
  /-- An element that is not waited for has been met. -/
  met : ∀ (index : Nat) (e : Element), r.table.elements[index]? = some e →
    r.table.current = some index ∨ (∃ p ∈ r.table.pending, p.element = index) ∨ e.Met s.events

/-- A wrapper is opened on one side of a tag of an element with attribute markers, and closed
on the other. -/
inductive Crossed (events : List SourceEvent) (name : TagName) : Prop
  /-- The wrapper is opened in the element and still open at its end tag. -/
  | outlasts {front x y rest : List SourceEvent} {start stop start' stop' : Nat} :
      events = front ++ .startTag name false true start stop ::
        (x ++ .openWrapper :: (y ++ .endTag name start' stop' :: rest)) →
      isVoid name = false → Brackets.Balanced (SourceEvent.element? name) (x ++ .openWrapper :: y) →
      Brackets.Balanced SourceEvent.wrapper? y → Crossed events name
  /-- The wrapper is open at the start tag and closed while the end tag is waited for. -/
  | ends {x y inside rest : List SourceEvent} {start stop : Nat} :
      events = x ++ .openWrapper ::
        (y ++ .startTag name false true start stop :: (inside ++ .closeWrapper :: rest)) →
      isVoid name = false → NeverBelow (SourceEvent.element? name) inside →
      Brackets.Balanced SourceEvent.wrapper? (y ++ .startTag name false true start stop :: inside) →
      Crossed events name

theorem Crossed.append {events : List SourceEvent} {name : TagName} (h : Crossed events name)
    (more : List SourceEvent) : Crossed (events ++ more) name := by
  cases h with
  | @outlasts front x y rest start stop start' stop' h hvoid htags hwrappers =>
    refine .outlasts (?_ : _ = front ++ .startTag name false true start stop ::
      (x ++ .openWrapper :: (y ++ .endTag name start' stop' :: (rest ++ more)))) hvoid htags
      hwrappers
    rw [h]
    simp
  | @ends x y inside rest start stop h hvoid htags hwrappers =>
    refine .ends (?_ : _ = x ++ .openWrapper :: (y ++ .startTag name false true start stop ::
      (inside ++ .closeWrapper :: (rest ++ more)))) hvoid htags hwrappers
    rw [h]
    simp

theorem SourceEvent.eq_openWrapper {e : SourceEvent} (h : e.wrapper? = some .opening) :
    e = .openWrapper := by
  cases e <;> simp_all [wrapper?]

namespace TagReader.Recounts

variable {r : TagReader} {s : Scan} {depth : Nat}

theorem initial : ({} : TagReader).Recounts {} 0 where
  lexer_eq := rfl
  depth_eq := rfl
  carries_eq := rfl
  current := fun _ hi => by cases hi
  pending := fun _ hp => absurd hp List.not_mem_nil
  met := fun _ _ he => by simp at he

/-- The element was opened in wrappers that are still open. -/
theorem rise_inside (h : r.Recounts s depth) {p : OpenElement} {e : Element}
    {front inside : List SourceEvent} (hevents : s.events = front ++ e.startTag false :: inside)
    (hp : p.Awaits front inside) : (p.depth : Int) + rise SourceEvent.wrapper? inside = depth := by
  have hd := h.depth_eq
  rw [hevents, rise_append, rise_cons, hp.depth_eq] at hd
  have hnone : Bracket.rise (e.startTag false).wrapper? = 0 := rfl
  omega

theorem depth_le (h : r.Recounts s depth) {p : OpenElement} (hp : p ∈ r.table.pending) :
    p.depth ≤ depth := by
  obtain ⟨e, front, inside, -, -, hevents, hawaits⟩ := h.pending p hp
  have hrise := h.rise_inside hevents hawaits
  have h0 := hawaits.wrappers.rise_nonneg
  omega

/-- One more event is met that leaves the wrappers open in which the element was opened. -/
theorem concat (h : r.Recounts s depth) {p q : OpenElement} {ev : SourceEvent}
    (hp : p ∈ r.table.pending) (hname : q.name = p.name) (hdepth : q.depth = p.depth)
    (hdeep : (p.depth : Int) ≤ depth + Bracket.rise ev.wrapper?)
    (hnested : (p.nested : Int) + Bracket.rise (ev.element? p.name) = q.nested) :
    ∃ (e : Element) (front inside : List SourceEvent), r.table.elements[p.element]? = some e ∧
      q.name = e.name ∧ s.events ++ [ev] = front ++ e.startTag false :: inside ∧
        q.Awaits front inside := by
  obtain ⟨e, front, inside, he, hpname, hevents, hawaits⟩ := h.pending p hp
  have hrise := h.rise_inside hevents hawaits
  refine ⟨e, front, inside ++ [ev], he, hname.trans hpname, by rw [hevents]; simp, ?_⟩
  exact hawaits.concat hname hdepth (by omega) hnested

/-! ## 3. Bytes -/

/-- No tag ends. -/
theorem goOn (h : r.Recounts s depth) {l : TagLexer}
    (hl : r.lexer.state.behindName = true → l.state.behindName = true ∧ l.name = r.lexer.name) :
    { r with lexer := l }.Recounts { s with lexer := l } depth := by
  refine ⟨rfl, h.depth_eq, h.carries_eq, fun index hi => ?_, h.pending, h.met⟩
  obtain ⟨hstate, hname⟩ := h.current index hi
  obtain ⟨hstate', hname'⟩ := hl hstate
  exact ⟨hstate', fun e he => (hname e he).trans hname'.symm⟩

/-- The pending elements behind a start tag. -/
def counted (name : TagName) (selfClosing : Bool) (pending : List OpenElement) :
    List OpenElement :=
  if selfClosing || isVoid name then pending else OpenElement.countOpening name pending

/-- A start tag changes the count of the pending elements of its name. -/
theorem exists_of_mem_counted {pending : List OpenElement} {name : TagName}
    {selfClosing : Bool} {q : OpenElement} (hq : q ∈ counted name selfClosing pending)
    (carries : Bool) (start stop : Nat) :
    ∃ p ∈ pending, q.element = p.element ∧ q.name = p.name ∧ q.depth = p.depth ∧
      (p.nested : Int) +
        Bracket.rise ((SourceEvent.startTag name selfClosing carries start stop).element? p.name) =
          q.nested := by
  unfold counted at hq
  cases hself : selfClosing || isVoid name with
  | true =>
    rw [hself, if_pos rfl] at hq
    refine ⟨q, hq, rfl, rfl, rfl, ?_⟩
    simp [SourceEvent.element?, hself, Bracket.rise]
  | false =>
    rw [hself, if_neg (by simp)] at hq
    obtain ⟨p, hp, rfl⟩ := List.mem_map.mp hq
    refine ⟨p, hp, ?_⟩
    by_cases hname : p.name = name
    · simp [SourceEvent.element?, hself, hname, Bracket.rise]
    · have hne : name ≠ p.name := fun h => hname h.symm
      simp [SourceEvent.element?, hname, hne, Bracket.rise]

/-- The same elements are pending. -/
theorem exists_mem_counted {pending : List OpenElement} {p : OpenElement} (hp : p ∈ pending)
    (name : TagName) (selfClosing : Bool) :
    ∃ q ∈ counted name selfClosing pending, q.element = p.element := by
  unfold counted
  split
  · exact ⟨p, hp, rfl⟩
  · refine ⟨_, List.mem_map_of_mem hp, ?_⟩
    split <;> rfl

/-- The elements pending so far have one more start tag behind theirs. -/
theorem pending_counted (h : r.Recounts s depth) {name : TagName} {selfClosing : Bool}
    {q : OpenElement} (hq : q ∈ counted name selfClosing r.table.pending) (carries : Bool)
    (start stop : Nat) :
    (∃ p ∈ r.table.pending, q.element = p.element) ∧
      ∃ (e : Element) (front inside : List SourceEvent), r.table.elements[q.element]? = some e ∧
        q.name = e.name ∧ s.events ++ [.startTag name selfClosing carries start stop] =
          front ++ e.startTag false :: inside ∧ q.Awaits front inside := by
  obtain ⟨p, hp, helement, hqname, hqdepth, hnested⟩ := exists_of_mem_counted hq carries start stop
  have hle := h.depth_le hp
  refine ⟨⟨p, hp, helement⟩, ?_⟩
  rw [helement]
  refine h.concat hp hqname hqdepth ?_ hnested
  show (p.depth : Int) ≤ depth + 0
  omega

theorem rise_startTag (h : r.Recounts s depth) (name : TagName) (selfClosing carries : Bool)
    (start stop : Nat) :
    rise SourceEvent.wrapper? (s.events ++ [.startTag name selfClosing carries start stop]) =
      depth := by
  rw [rise_append, h.depth_eq]
  show (depth : Int) + (0 + 0) = depth
  omega

section

variable {ω δ : Type} {markers : Array (Marker ω δ)} {opened : List (Option Nat)}
  {content? : Option Place}

/-- The start tag in which the reader stands ends, and its element is changed. -/
theorem endCurrent (h : r.Recounts s depth) (ht : r.Tracks markers opened content?) {index : Nat}
    (hi : r.table.current = some index) (l : TagLexer) (selfClosing : Bool) (stop : Nat)
    (f : Element → Element) (new : List OpenElement)
    (hf : ∀ e, (f e).name = e.name ∧ (f e).openStart = e.openStart ∧ (f e).openEnd = stop)
    (hnew : ∀ q ∈ new, q = { element := index, name := r.lexer.name, depth := depth } ∧
      (selfClosing || isVoid r.lexer.name) = false)
    (hmet : (∃ q ∈ new, q.element = index) ∨ ((selfClosing || isVoid r.lexer.name) = true ∧
      ∀ e, (f e).closeStart = stop ∧ (f e).closeEnd = stop)) :
    { lexer := l
      table := {
        current := none
        pending := counted r.lexer.name selfClosing r.table.pending ++ new
        elements := r.table.elements.modify index f } : TagReader }.Recounts
      { lexer := l
        carries := false
        events := s.events ++
          [.startTag r.lexer.name selfClosing s.carries s.lexer.tagStart stop] }
      depth := by
  obtain ⟨-, hnot, e₁, he₁, hstart, -⟩ := ht.current index hi
  have hname := (h.current index hi).2 e₁ he₁
  have hcarries : s.carries = true := by rw [h.carries_eq, hi]; rfl
  obtain ⟨hfname, hfstart, hfend⟩ := hf e₁
  -- The event is the start tag of the element.
  have htag : (f e₁).startTag selfClosing =
      .startTag r.lexer.name selfClosing s.carries s.lexer.tagStart stop := by
    rw [Element.startTag, hfname, hname, hfstart, hstart, hfend, hcarries, h.lexer_eq]
  have hself : (r.table.elements.modify index f)[index]? = some (f e₁) := by
    rw [Array.getElem?_modify, if_pos rfl, he₁]
    rfl
  have hother : ∀ {i : Nat}, index ≠ i →
      (r.table.elements.modify index f)[i]? = r.table.elements[i]? := by
    intro i hne
    rw [Array.getElem?_modify, if_neg hne]
  refine ⟨rfl, h.rise_startTag _ _ _ _ _, rfl, fun _ hi => (by cases hi), fun q hq => ?_,
    fun i e he => .inr ?_⟩
  · rcases List.mem_append.mp hq with hq | hq
    · obtain ⟨⟨p, hp, helement⟩, hexists⟩ := h.pending_counted hq s.carries s.lexer.tagStart stop
      have hne : index ≠ q.element := by
        rintro rfl
        exact hnot p.depth (List.mem_map.mpr ⟨p, hp, by rw [OpenElement.key, helement]⟩)
      rw [hother hne]
      exact hexists
    · obtain ⟨rfl, hcloses⟩ := hnew q hq
      obtain ⟨rfl, hvoid⟩ := Bool.or_eq_false_iff.mp hcloses
      refine ⟨f e₁, s.events, [], hself, (hfname.trans hname).symm, by rw [htag], hvoid, h.depth_eq,
        Brackets.Balanced.nil.neverBelow, Brackets.Balanced.nil.neverBelow, rfl⟩
  · by_cases hne : index = i
    · subst hne
      replace he : (r.table.elements.modify index f)[index]? = some e := he
      rw [hself] at he
      cases he
      rcases hmet with ⟨q, hq, helement⟩ | ⟨hcloses, hclose⟩
      · exact .inl ⟨q, List.mem_append_right _ hq, helement⟩
      · refine .inr (.alone (?_ : _ = s.events ++ (f e₁).startTag selfClosing :: []) ?_ ?_ ?_)
        · rw [htag]
        · rw [hfname, hname, hcloses]
        · rw [(hclose e₁).1, hfend]
        · rw [(hclose e₁).2, hfend]
    · replace he : (r.table.elements.modify index f)[i]? = some e := he
      rw [hother hne] at he
      rcases h.met i e he with hc | ⟨p, hp, rfl⟩ | hmet
      · rw [hi] at hc
        exact absurd (Option.some.inj hc) hne
      · obtain ⟨q, hq, helement⟩ := exists_mem_counted hp r.lexer.name selfClosing
        exact .inl ⟨q, List.mem_append_left _ hq, helement⟩
      · exact .inr (hmet.append _)

/-- A start tag ends. -/
theorem openTag (h : r.Recounts s depth) (ht : r.Tracks markers opened content?) (l : TagLexer)
    (name : TagName) (selfClosing : Bool) (stop n : Nat)
    (hname : ∀ index, r.table.current = some index → name = r.lexer.name) :
    { lexer := l
      table := r.table.openTag { markers := n, depth := depth } name selfClosing stop :
      TagReader }.Recounts
      { lexer := l
        carries := false
        events := s.events ++ [.startTag name selfClosing s.carries s.lexer.tagStart stop] }
      depth := by
  unfold ElementTable.openTag
  cases hi : r.table.current with
  | none =>
    refine ⟨rfl, h.rise_startTag _ _ _ _ _, rfl, fun _ hi => (by cases hi),
      fun q hq => (h.pending_counted hq s.carries s.lexer.tagStart stop).2, ?_⟩
    intro index e he
    rcases h.met index e he with hc | ⟨p, hp, rfl⟩ | hmet
    · rw [hi] at hc
      cases hc
    · exact .inr (.inl (exists_mem_counted hp name selfClosing))
    · exact .inr (.inr (hmet.append _))
  | some index =>
    cases hname index hi
    cases hcloses : selfClosing || isVoid r.lexer.name with
    | true =>
      have hended := h.endCurrent ht hi l selfClosing stop
        (fun e => (e.endOpen stop n).endClose stop stop n) [] (fun e => ⟨rfl, rfl, rfl⟩)
        (fun q hq => absurd hq List.not_mem_nil)
        (.inr ⟨hcloses, fun e => ⟨rfl, rfl⟩⟩)
      rw [List.append_nil, counted, if_pos hcloses] at hended
      exact hended
    | false =>
      have hended := h.endCurrent ht hi l selfClosing stop (fun e => e.endOpen stop n)
        [{ element := index, name := r.lexer.name, depth := depth }]
        (fun e => ⟨rfl, rfl, rfl⟩) (fun q hq => ⟨List.mem_singleton.mp hq, hcloses⟩)
        (.inl ⟨_, List.mem_singleton_self _, rfl⟩)
      rw [counted, if_neg (by simp [hcloses])] at hended
      exact hended

/-- An end tag ends that crosses no wrapper. -/
theorem closeTag (h : r.Recounts s depth) {l : TagLexer} (hl : r.table.current = none)
    {name : TagName} {start stop n : Nat} {table : ElementTable}
    (hclose : r.table.closeTag { markers := n, depth := depth } name start stop = (table, none)) :
    { lexer := l, table := table : TagReader }.Recounts
      { s with lexer := l, events := s.events ++ [.endTag name start stop] } depth := by
  obtain ⟨hcurrent, hpending, hcrossed, helem⟩ := ElementTable.closeTag_eq hclose
  have hnone : table.current = none := hcurrent.trans hl
  have hdepth : rise SourceEvent.wrapper? (s.events ++ [.endTag name start stop]) = depth := by
    rw [rise_append, h.depth_eq]
    show (depth : Int) + (0 + 0) = depth
    omega
  refine ⟨rfl, hdepth, ?_, fun index hi => ?_, fun q hq => ?_, fun index e he => .inr ?_⟩
  · show s.carries = table.current.isSome
    rw [h.carries_eq, hl, hnone]
  · replace hi : table.current = some index := hi
    rw [hnone] at hi
    cases hi
  · replace hq : q ∈ table.pending := hq
    rw [hpending] at hq
    obtain ⟨p, hp, hcases⟩ := OpenElement.mem_pending_closeAll hcrossed hq
    have hsame : q.element = p.element ∧ q.name = p.name ∧ q.depth = p.depth := by
      rcases hcases with ⟨-, rfl⟩ | ⟨-, -, rfl⟩ <;> exact ⟨rfl, rfl, rfl⟩
    have hnested : (p.nested : Int) +
        Bracket.rise ((SourceEvent.endTag name start stop).element? p.name) = q.nested := by
      rcases hcases with ⟨hname, rfl⟩ | ⟨rfl, hpos, rfl⟩
      · have hne : name ≠ q.name := fun h => hname h.symm
        simp [SourceEvent.element?, hne, Bracket.rise]
      · simp only [SourceEvent.element?, if_true, Bracket.rise]
        omega
    have hle := h.depth_le hp
    have hdeep : (p.depth : Int) ≤ depth +
        Bracket.rise (SourceEvent.endTag name start stop).wrapper? := by
      show (p.depth : Int) ≤ depth + 0
      omega
    obtain ⟨e, front, inside, he, hqname, hevents, hawaits⟩ :=
      h.concat hp hsame.2.1 hsame.2.2 hdeep hnested
    -- Closing it already would not change its start tag.
    show ∃ e front inside, table.elements[q.element]? = some e ∧ _
    rw [hsame.1, helem, he]
    split
    · exact ⟨_, front, inside, rfl, hqname, hevents, hawaits⟩
    · exact ⟨e, front, inside, rfl, hqname, hevents, hawaits⟩
  · replace he : table.elements[index]? = some e := he
    rw [helem] at he
    split at he
    · next hclosed =>
      obtain ⟨p, hp, rfl, hname, hnested, hpdepth⟩ := OpenElement.exists_of_mem_closed hclosed
      obtain ⟨e₀, front, inside, he₀, hpname, hevents, hawaits⟩ := h.pending p hp
      rw [he₀] at he
      cases he
      have hrise := h.rise_inside hevents hawaits
      have hsame : p.depth = depth := hpdepth
      refine .inr (.ended (?_ : _ = front ++ Element.startTag _ false ::
        (inside ++ Element.endTag _ :: [])) ?_ ?_ ?_)
      · show s.events ++ _ = _
        rw [hevents, ← hname, hpname]
        simp [Element.startTag, Element.endTag, Element.endClose]
      · exact hpname ▸ hawaits.void
      · refine ⟨hpname ▸ hawaits.tags, ?_⟩
        have hzero := hawaits.nested_eq
        rw [hnested, hpname] at hzero
        exact hzero
      · exact ⟨hawaits.wrappers, by omega⟩
    · next hclosed =>
      rcases h.met index e he with hc | ⟨p, hp, rfl⟩ | hmet
      · rw [hl] at hc
        cases hc
      · rcases OpenElement.key_mem_or_mem_closed _ _ hcrossed hp with hk | hk
        · obtain ⟨q, hq, hkey⟩ := List.mem_map.mp hk
          refine .inl ⟨q, ?_, (Prod.mk.inj hkey).1⟩
          show q ∈ table.pending
          rw [hpending]
          exact hq
        · exact absurd hk hclosed
      · exact .inr (hmet.append _)

/-- A byte is read that crosses no wrapper. -/
theorem step (h : r.Recounts s opened.length) (ht : r.Tracks markers opened content?)
    {r' : TagReader} {byte : UInt8}
    (hr : r.step { markers := markers.size, depth := opened.length } byte = (r', none)) :
    r'.Recounts (s.read byte) opened.length := by
  have hlexer := h.lexer_eq
  have hname := fun hstate => r.lexer.step_behindName hstate byte
  have hreads := r.lexer.reads_step byte
  unfold Scan.read
  rw [hlexer]
  unfold TagReader.step at hr
  simp only at hr
  generalize r.lexer.step byte = next at hname hreads hr
  obtain ⟨l', tag⟩ := next
  cases tag with
  | none =>
    cases hr
    refine h.goOn fun hstate => ?_
    rcases hname hstate with ⟨-, hstate', hname'⟩ | ⟨selfClosing, htag⟩
    · exact ⟨hstate', hname'⟩
    · cases htag
  | some tag =>
    cases tag with
    | opening name selfClosing stop =>
      cases hr
      have htag := h.openTag ht l' name selfClosing stop markers.size fun index hi => by
        rcases hname (h.current index hi).1 with ⟨htag, -⟩ | ⟨sc, htag⟩
        · cases htag
        · cases htag
          rfl
      rw [hlexer] at htag
      exact htag
    | closing name start stop =>
      obtain ⟨rfl, htag⟩ := Prod.mk.inj hr
      -- The reader stands in an end tag, so there is no current element.
      have hnone : r.table.current = none := by
        cases hi : r.table.current with
        | none => rfl
        | some index =>
          rcases hname (h.current index hi).1 with ⟨htag, -⟩ | ⟨sc, htag⟩
          · cases htag
          · cases htag
      exact h.closeTag hnone (Prod.ext rfl htag)

theorem feed (h : r.Recounts s opened.length) (ht : r.Tracks markers opened content?)
    (hopened : openBefore markers markers.size = opened.filterMap id) {r' : TagReader}
    {bytes : List UInt8}
    (hr : r.feed { markers := markers.size, depth := opened.length } bytes = (r', none)) :
    r'.Recounts ((bytes.map Item.byte).foldl Scan.step s) opened.length := by
  induction bytes generalizing r s with
  | nil =>
    cases hr
    exact h
  | cons byte bytes ih =>
    unfold TagReader.feed at hr
    split at hr
    · next next hstep => exact ih (h.step ht hstep) (ht.step hopened hstep).1 hr
    · cases hr

end

/-! ## 4. Tokens -/

/-- A token stands at the current place. -/
theorem interrupt (h : r.Recounts s depth) : r.interrupt.Recounts s.interrupt depth := by
  have hgo := h.goOn (l := r.lexer.interrupt) fun hstate => ⟨?_, rfl⟩
  · unfold Scan.interrupt
    rw [h.lexer_eq]
    exact hgo
  · show r.lexer.state.interrupted.behindName = true
    cases hs : r.lexer.state <;> rw [hs] at hstate <;> first | rfl | cases hstate

/-- An attribute marker stands in the start tag being read. -/
theorem attach (h : r.Recounts s depth) (hs : r.lexer.state.behindName = true) :
    r.attachMarker.1.Recounts { s with carries := true } depth := by
  unfold TagReader.attachMarker ElementTable.attach
  cases hi : r.table.current with
  | some index =>
    refine ⟨h.lexer_eq, h.depth_eq, ?_, h.current, h.pending, h.met⟩
    show true = r.table.current.isSome
    rw [hi]
    rfl
  | none =>
    have hold : ∀ {i : Nat} {e x : Element}, r.table.elements[i]? = some e →
        (r.table.elements.push x)[i]? = some e := by
      intro i e x he
      obtain ⟨hlt, -⟩ := Array.getElem?_eq_some_iff.mp he
      rw [Array.getElem?_push_lt hlt, ← he, Array.getElem?_eq_getElem hlt]
    refine ⟨h.lexer_eq, h.depth_eq, rfl, fun index hc => ?_, fun p hp => ?_, fun index e he => ?_⟩
    · cases hc
      refine ⟨hs, fun e he => ?_⟩
      replace he : (r.table.elements.push _)[r.table.elements.size]? = some e := he
      rw [Array.getElem?_push_size] at he
      cases he
      rfl
    · obtain ⟨e, front, inside, he, hp⟩ := h.pending p hp
      exact ⟨e, front, inside, hold he, hp⟩
    · rcases getElem?_push_eq_some he with he | ⟨rfl, -⟩
      · rcases h.met index e he with hc | hc
        · rw [hi] at hc
          cases hc
        · exact .inr hc
      · exact .inl rfl

/-- A wrapper token is met, and the elements are opened in wrappers that are still open. -/
theorem add (h : r.Recounts s depth) {ev : SourceEvent} {depth' : Nat}
    (hev : ∀ name, ev.element? name = none)
    (hdepth : (depth : Int) + Bracket.rise ev.wrapper? = depth')
    (hdeep : ∀ p ∈ r.table.pending, p.depth ≤ depth') : r.Recounts (s.add ev) depth' := by
  refine ⟨h.lexer_eq, ?_, h.carries_eq, h.current, fun p hp => ?_, fun index e he => ?_⟩
  · show rise SourceEvent.wrapper? (s.events ++ [ev]) = depth'
    rw [rise_append, h.depth_eq, rise_cons, rise_nil, Int.add_zero, hdepth]
  · have hle : (p.depth : Int) ≤ depth + Bracket.rise ev.wrapper? := by
      rw [hdepth]
      exact Int.ofNat_le.mpr (hdeep p hp)
    refine h.concat hp rfl rfl hle ?_
    rw [hev]
    exact Int.add_zero _
  · rcases h.met index e he with hc | hc | hmet
    · exact .inl hc
    · exact .inr (.inl hc)
    · exact .inr (.inr (hmet.append _))

theorem openWrapper (h : r.Recounts s depth) : r.Recounts (s.add .openWrapper) (depth + 1) :=
  h.add (fun _ => rfl) rfl fun _ hp => Nat.le_succ_of_le (h.depth_le hp)

/-- A wrapper is closed that no element crosses. -/
theorem closeWrapper (h : r.Recounts s (depth + 1)) (hcross : r.crossedAt? depth = none) :
    r.Recounts (s.add .closeWrapper) depth := by
  refine h.add (fun _ => rfl) ?_ fun p hp => ?_
  · show ((depth + 1 : Nat) : Int) + -1 = depth
    omega
  · have hnot := List.find?_eq_none.mp (Option.map_eq_none_iff.mp hcross) p hp
    simpa using hnot

/-- The content marker stands at the current place. -/
theorem markContent (h : r.Recounts s depth) : r.markContent.Recounts s depth := by
  have helem := r.table.getElem?_markContent
  refine ⟨h.lexer_eq, h.depth_eq, h.carries_eq, fun index hi => ?_, fun p hp => ?_,
    fun index e he => ?_⟩
  · obtain ⟨hstate, hname⟩ := h.current index hi
    refine ⟨hstate, fun e he => ?_⟩
    replace he : r.table.markContent.elements[index]? = some e := he
    rw [helem] at he
    split at he
    · obtain ⟨e₀, he₀, rfl⟩ := Option.map_eq_some_iff.mp he
      exact hname e₀ he₀
    · exact hname e he
  · obtain ⟨e, front, inside, he, hp⟩ := h.pending p hp
    show ∃ e front inside, r.table.markContent.elements[p.element]? = some e ∧ _
    rw [helem, he]
    split
    · exact ⟨_, front, inside, rfl, hp⟩
    · exact ⟨e, front, inside, rfl, hp⟩
  · replace he : r.table.markContent.elements[index]? = some e := he
    rw [helem] at he
    split at he
    · next hmem =>
      obtain ⟨p, hp, rfl⟩ := List.mem_map.mp hmem
      exact .inr (.inl ⟨p, hp, rfl⟩)
    · exact h.met index e he

/-! ## 5. Elements that are crossed -/

/-- An end tag is refused if a wrapper that was opened in the element is still open. -/
theorem crossed_of_step (h : r.Recounts s depth) {r' : TagReader} {byte : UInt8} {name : String}
    {n : Nat} (hr : r.step { markers := n, depth := depth } byte = (r', some name)) :
    ∃ tagName : TagName, tagName.text = name ∧ Crossed (s.read byte).events tagName := by
  unfold Scan.read
  rw [h.lexer_eq]
  unfold TagReader.step at hr
  simp only at hr
  generalize r.lexer.step byte = next at hr
  obtain ⟨l', tag⟩ := next
  cases tag with
  | none => cases hr
  | some tag =>
    cases tag with
    | opening => cases hr
    | closing tagName start stop =>
      obtain ⟨-, hcross⟩ := Prod.mk.inj hr
      obtain ⟨index, hindex, rfl⟩ := Option.map_eq_some_iff.mp hcross
      obtain ⟨p, hp, rfl, hname, hnested, hpdepth⟩ := OpenElement.exists_of_crossed hindex
      obtain ⟨e, front, inside, he, hpname, hevents, hawaits⟩ := h.pending p hp
      have htext : r.table.nameText p.element = e.name.text := by
        rw [ElementTable.nameText, he]
        rfl
      have hle := h.depth_le hp
      have hne : p.depth ≠ depth := hpdepth
      have hrise := h.rise_inside hevents hawaits
      have hpos : 0 < rise SourceEvent.wrapper? inside := by omega
      obtain ⟨x, ev, y, rfl, hev, hy⟩ := exists_open hpos
      cases SourceEvent.eq_openWrapper hev
      refine ⟨tagName, by rw [htext, ← hpname, hname], ?_⟩
      refine .outlasts (?_ : _ = front ++ .startTag tagName false true e.openStart e.openEnd ::
        (x ++ .openWrapper :: (y ++ .endTag tagName start stop :: []))) (hname ▸ hawaits.void)
        ⟨hname ▸ hawaits.tags, ?_⟩ hy
      · show s.events ++ _ = _
        rw [hevents, Element.startTag, ← hpname, hname]
        simp
      · have hzero := hawaits.nested_eq
        rw [hnested, hname] at hzero
        exact hzero

/-- A wrapper end is refused if the wrapper was open at the start tag of an element that
waits for its end tag. -/
theorem crossed_of_closeWrapper (h : r.Recounts s (depth + 1)) {name : String}
    (hcross : r.crossedAt? depth = some name) :
    ∃ tagName : TagName, tagName.text = name ∧
      Crossed (s.add .closeWrapper).events tagName := by
  obtain ⟨p, hfind, rfl⟩ := Option.map_eq_some_iff.mp hcross
  have hp := List.mem_of_find?_eq_some hfind
  have hdeep : depth < p.depth := by simpa using List.find?_some hfind
  obtain ⟨e, front, inside, he, hpname, hevents, hawaits⟩ := h.pending p hp
  have htext : r.table.nameText p.element = e.name.text := by
    rw [ElementTable.nameText, he]
    rfl
  have hle := h.depth_le hp
  have hrise := h.rise_inside hevents hawaits
  have hfront := hawaits.depth_eq
  have hpos : 0 < rise SourceEvent.wrapper? front := by omega
  obtain ⟨x, ev, y, rfl, hev, hy⟩ := exists_open hpos
  cases SourceEvent.eq_openWrapper hev
  have hinside : Brackets.Balanced SourceEvent.wrapper? inside := ⟨hawaits.wrappers, by omega⟩
  have htag : Brackets.Balanced SourceEvent.wrapper?
      [.startTag e.name false true e.openStart e.openEnd] := .single rfl
  refine ⟨e.name, htext.symm, .ends (?_ : _ = x ++ .openWrapper ::
    (y ++ .startTag e.name false true e.openStart e.openEnd :: (inside ++ .closeWrapper :: [])))
    (hpname ▸ hawaits.void) (hpname ▸ hawaits.tags) (hy.append (htag.append hinside))⟩
  show s.events ++ _ = _
  rw [hevents]
  simp [Element.startTag]

end TagReader.Recounts

end HtmlTemplate
