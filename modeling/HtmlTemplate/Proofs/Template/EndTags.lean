import HtmlTemplate.Proofs.Markup.FirstEnd
import HtmlTemplate.Proofs.Template.Origins
import HtmlTemplate.Proofs.Template.Refusals
import HtmlTemplate.Proofs.Template.Tags

/-!
# The end tags of elements

Every element that waits for its end tag keeps a count of its own, which start tags raise and
end tags lower, and elements are taken off the list of those that wait while an end tag goes
through that list. This module says which end tag an element gets without any of that.

Results:
1. `TagReader.Enters`: each start tag with attribute markers is that of an element in the
   table. Each piece keeps it (`enters_of_addPiece`).
2. `Template.EndTagsMatch`: an element has the first end tag at which the end tags of its
   name exceed the start tags. `Scan.Lost`: an element has none.
3. `Recounted.endTagsMatch`, `exists_unclosed?_of_lost`: at the end of the pass each element
   has its end tag, or one is found that has none.
4. `endTagsMatch_of_compile`: so it is in every compiled template, and a source is refused in
   which an element has no end tag.
-/

namespace HtmlTemplate

open Markup

variable {ω δ : Type}

/-! ## 1. Start tags with attribute markers -/

/-- Each start tag with attribute markers is that of an element in the table. -/
def TagReader.Enters (r : TagReader) (s : Scan) : Prop :=
  ∀ (name : TagName) (selfClosing : Bool) (start stop : Nat),
    SourceEvent.startTag name selfClosing true start stop ∈ s.events → start ∈ r.table.starts

namespace TagReader.Enters

variable {r r' : TagReader} {s : Scan} {markers : Array (Marker ω δ)}
  {opened : List (Option Nat)} {content? : Option Place}

theorem initial : ({} : TagReader).Enters {} := fun _ _ _ _ h => absurd h List.not_mem_nil

/-- A token ends no tag, and takes no element out of the table. -/
theorem item (h : r.Enters s) {i : Item} (hi : i.byte? = none)
    (hstarts : r.table.starts ⊆ r'.table.starts) : r'.Enters (s.step i) := by
  intro name selfClosing start stop hmem
  refine hstarts (h name selfClosing start stop ?_)
  cases i with
  | byte => cases hi
  | content | plain => exact hmem
  | openWrapper | closeWrapper => simpa [Scan.step, Scan.add, Scan.interrupt] using hmem

/-- A byte ends at most the start tag being read, whose element is in the table if attribute
markers stand in it. -/
theorem step (h : r.Enters s) (hr : r.Recounts s opened.length)
    (ht : r.Tracks markers opened content?) (around : Surroundings) (byte : UInt8) :
    (r.step around byte).1.Enters (s.read byte) := by
  intro name selfClosing start stop hmem
  rw [starts_step]
  unfold Scan.read at hmem
  split at hmem
  · exact h name selfClosing start stop hmem
  · rcases List.mem_append.mp hmem with hmem | hmem
    · exact h name selfClosing start stop hmem
    · obtain ⟨-, -, hcarries, hstart, -⟩ := SourceEvent.startTag.inj (List.mem_singleton.mp hmem)
      rw [hr.carries_eq] at hcarries
      obtain ⟨index, hi⟩ := Option.isSome_iff_exists.mp hcarries.symm
      obtain ⟨-, -, e, he, hopen, -⟩ := ht.current index hi
      rw [hstart, hr.lexer_eq, ← hopen]
      exact List.mem_map_of_mem (Array.mem_toList_iff.mpr (Array.mem_of_getElem? he))
  · rcases List.mem_append.mp hmem with hmem | hmem
    · exact h name selfClosing start stop hmem
    · cases List.mem_singleton.mp hmem

theorem feed (h : r.Enters s) (hr : r.Recounts s opened.length)
    (ht : r.Tracks markers opened content?)
    (hopened : openBefore markers markers.size = opened.filterMap id) {bytes : List UInt8}
    (hfeed : r.feed { markers := markers.size, depth := opened.length } bytes = (r', none)) :
    r'.Enters ((bytes.map Item.byte).foldl Scan.step s) := by
  induction bytes generalizing r s with
  | nil =>
    cases hfeed
    exact h
  | cons byte bytes ih =>
    have hbyte := h.step hr ht { markers := markers.size, depth := opened.length } byte
    unfold TagReader.feed at hfeed
    split at hfeed
    · next next hstep =>
      rw [hstep] at hbyte
      exact ih hbyte (hr.step ht hstep) (ht.step hopened hstep).1 hfeed
    · cases hfeed

end TagReader.Enters

namespace Assembly

variable {a b : Assembly ω δ} {s : Scan}

/-- No edit takes an element out of the table. -/
theorem starts_subset_of_edit (h : Edit a b) : a.reader.table.starts ⊆ b.reader.table.starts := by
  cases h with
  | @bytes bytes r hr =>
    have hstarts := a.reader.starts_feed a.surroundings bytes
    rw [hr] at hstarts
    exact fun _ hmem => hstarts ▸ hmem
  | content => exact fun _ hmem => (a.reader.table.starts_markContent).symm ▸ hmem
  | declaration | unfold | close => exact fun _ hmem => hmem
  | placed hp =>
    cases hp with
    | attributes =>
      rcases a.reader.interrupt.starts_attachMarker with heq | ⟨-, heq⟩
      · exact fun _ hmem => heq.symm ▸ hmem
      · exact fun _ hmem => heq.symm ▸ List.mem_append_left _ hmem
    | plain | wrapper | folded | foldedWrapper => exact fun _ hmem => hmem

theorem enters_of_addNamed (hr : Recounted a s) (h : a.reader.Enters s) {name : String}
    {isWrapper : Bool} {start : Nat} (hb : a.addNamed name isWrapper start = .ok b) :
    ∃ d rest, a.declarations = d :: rest ∧ ∀ i : Item, i.byte? = none →
      b.reader.Enters ((d.bytes.map Item.byte ++ [i]).foldl Scan.step s) := by
  obtain ⟨d, rest, r, hds, -, -, hfeed, hp⟩ := addNamed_eq_ok hb
  refine ⟨d, rest, hds, fun i hi => ?_⟩
  rw [List.foldl_append]
  exact (h.feed hr.recounts hr.tracks hr.opened hfeed).item hi (starts_subset_of_edit (.placed hp))

theorem enters_of_addPiece (hr : Recounted a s) (h : a.reader.Enters s) {p : Piece}
    (hb : a.addPiece p = .ok b) : b.reader.Enters ((p.items a.declarations).foldl Scan.step s) := by
  cases p with
  | text c =>
    obtain ⟨r, hfeed, rfl⟩ := addBytes_eq_ok hb
    exact h.feed hr.recounts hr.tracks hr.opened hfeed
  | token t =>
    obtain ⟨kind, start, stop⟩ := t
    cases kind with
    | content =>
      exact h.item (i := .content) rfl (starts_subset_of_edit (edit_of_addContent hb))
    | wrapperEnd =>
      exact h.item (i := .closeWrapper) rfl (starts_subset_of_edit (edit_of_addWrapperEnd hb))
    | wrapperStart name =>
      obtain ⟨d, rest, hds, hnext⟩ := enters_of_addNamed hr h hb
      simpa only [Piece.items, Token.items, hds] using hnext .openWrapper rfl
    | plain name =>
      obtain ⟨d, rest, hds, hnext⟩ := enters_of_addNamed hr h hb
      simpa only [Piece.items, Token.items, hds] using hnext (.plain d.callback.isSome) rfl

theorem enters_of_foldlM {pieces : List Piece} (hr : Recounted a s) (h : a.reader.Enters s)
    (hb : pieces.foldlM addPiece a = .ok b) :
    b.reader.Enters ((items pieces a.declarations).foldl Scan.step s) := by
  induction pieces generalizing a s with
  | nil =>
    cases hb
    exact h
  | cons p pieces ih =>
    obtain ⟨a', hp, hrest⟩ := exists_ok_of_bind hb
    obtain ⟨hunused, hnext⟩ := hr.addPiece hp
    rw [items, List.foldl_append, ← hunused]
    exact ih hnext (enters_of_addPiece hr h hp) hrest

/-- A start tag with attribute markers is that of an element whose start tag has ended. -/
theorem Recounted.exists_element (hr : Recounted a s) (h : a.reader.Enters s) {name : TagName}
    {selfClosing : Bool} {start stop : Nat}
    (hmem : .startTag name selfClosing true start stop ∈ s.events) :
    ∃ (index : Nat) (e : Element), a.reader.table.elements[index]? = some e ∧
      a.reader.table.current ≠ some index ∧
        e.startTag selfClosing = .startTag name selfClosing true start stop := by
  obtain ⟨e, he, rfl⟩ := List.mem_map.mp (h name selfClosing start stop hmem)
  obtain ⟨index, hi⟩ := Array.mem_iff_getElem?.mp (Array.mem_toList_iff.mp he)
  -- The tag that the reader stands in has not ended, and so starts behind this one.
  have hcurrent : a.reader.table.current ≠ some index := by
    intro hc
    obtain ⟨hs, -, e', he', hopen, -⟩ := hr.tracks.current index hc
    cases hi.symm.trans he'
    have hspan : (e.openStart, stop) ∈ s.events.filterMap SourceEvent.span? :=
      List.mem_filterMap.mpr ⟨_, hmem, rfl⟩
    have hlexer := hr.recounts.lexer_eq
    have hle := (hr.right.behind _ hspan).2 (by simp [hlexer, hs])
    rw [hlexer, ← hopen] at hle
    exact absurd (hr.right.lt_of_span hmem rfl) (Nat.not_lt_of_le hle)
  obtain ⟨closes, htag⟩ := hr.startTag_mem hi hcurrent
  have heq := hr.right.eq_of_start htag hmem rfl rfl
  obtain ⟨hname, hself, -, -, hstop⟩ := SourceEvent.startTag.inj heq
  exact ⟨index, e, hi, hcurrent, hself ▸ heq⟩

end Assembly

/-! ## 2. Statements -/

/-- The scan of a source, of which the events of the source are those met. -/
def Scan.ofSource (source : String) (declarations : List (Declaration ω δ)) : Scan :=
  (items (pieces source) declarations).foldl Scan.step {}

/-- The elements with attribute markers have the end tags that belong to them. -/
structure Template.EndTagsMatch (t : Template ω δ) (events : List SourceEvent) : Prop where
  /-- Each start tag with attribute markers is that of an element. -/
  element : ∀ (name : TagName) (selfClosing : Bool) (start stop : Nat),
    .startTag name selfClosing true start stop ∈ events →
      ∃ (index : Nat) (e : Element), t.elements[index]? = some e ∧
        e.startTag selfClosing = .startTag name selfClosing true start stop
  startTag_mem : ∀ (index : Nat) (e : Element), t.elements[index]? = some e →
    ¬e.ClosesItself events → e.startTag false ∈ events
  /-- The end tag is the first of its name behind the start tag, and would be so among any
  other tags and wrappers with the same tags of its name. -/
  firstEnd : ∀ (index : Nat) (e : Element), t.elements[index]? = some e →
    ¬e.ClosesItself events → ∀ front behind, events = front ++ e.startTag false :: behind →
      ∀ behind', tagsOf e.name behind' = tagsOf e.name behind →
        ∀ start stop, FirstEnd e.name behind' start stop ↔
          start = e.closeStart ∧ stop = e.closeEnd
  /-- An end tag closes one element at most. -/
  closes_one : ∀ (i j : Nat) (e e' : Element), t.elements[i]? = some e →
    t.elements[j]? = some e' → ¬e.ClosesItself events → ¬e'.ClosesItself events →
      e.endTag = e'.endTag → i = j

/-- An element with attribute markers that needs an end tag has none, or its start tag is not
ended. -/
inductive Scan.Lost (s : Scan) (name : TagName) : Prop
  | noEnd {front behind : List SourceEvent} {start stop : Nat} :
      s.events = front ++ .startTag name false true start stop :: behind →
      isVoid name = false → (∀ start' stop', ¬FirstEnd name behind start' stop') → Lost s name
  | unfinished : s.carries = true → s.lexer.name = name → Lost s name

/-- No fault is found up to the end of the source: no name is declared twice, every piece is
accepted, and no wrapper is left open. -/
def Passes (source : String) (declarations : List (Declaration ω δ)) : Prop :=
  (declarations.map Declaration.name).Nodup ∧
    ∃ a, (pieces source).foldlM Assembly.addPiece (Assembly.atStart source declarations) = .ok a ∧
      a.openWrappers = []

/-! ## 3. The end of the pass -/

namespace Assembly.Recounted

variable {a : Assembly ω δ} {s : Scan} {e : Element}

/-- The tag stands in one place among the events. -/
theorem split_unique (h : Recounted a s) {front front' behind behind' : List SourceEvent}
    {tag : SourceEvent} {start stop : Nat} (hspan : tag.span? = some (start, stop))
    (hevents : s.events = front ++ tag :: behind)
    (hevents' : s.events = front' ++ tag :: behind') : front = front' ∧ behind = behind' := by
  have hat : s.events[front.length]? = some tag := by simp [hevents]
  have hat' : s.events[front'.length]? = some tag := by simp [hevents']
  have hlength := h.right.index_unique hat hat' hspan hspan
  obtain ⟨hfront, hbehind⟩ := List.append_inj (hevents.symm.trans hevents') hlength
  exact ⟨hfront, List.tail_eq_of_cons_eq hbehind⟩

/-- An element whose end tag has been met has the first one. -/
theorem firstEnd_iff (h : Recounted a s) (hmet : e.Met s.events)
    (hnot : ¬e.ClosesItself s.events) {front behind : List SourceEvent}
    (hevents : s.events = front ++ e.startTag false :: behind) {start stop : Nat} :
    FirstEnd e.name behind start stop ↔ start = e.closeStart ∧ stop = e.closeEnd := by
  obtain ⟨front', inside, rest, hevents', hvoid, htags⟩ := hmet.exists_ended hnot
  obtain ⟨-, rfl⟩ := h.split_unique rfl hevents hevents'
  have hfirst : FirstEnd e.name (inside ++ e.endTag :: rest) e.closeStart e.closeEnd :=
    firstEnd_of_balanced hvoid htags
  exact ⟨fun hend => hend.unique hfirst, fun ⟨hstart, hstop⟩ => hstart ▸ hstop ▸ hfirst⟩

/-- Two elements that have the same end tag have the same start tag, because a closing bracket
belongs to one opening bracket. -/
theorem startTag_eq_of_endTag (h : Recounted a s) {e' : Element} (hmet : e.Met s.events)
    (hmet' : e'.Met s.events) (hnot : ¬e.ClosesItself s.events)
    (hnot' : ¬e'.ClosesItself s.events) (hend : e.endTag = e'.endTag) :
    e.startTag false = e'.startTag false := by
  obtain ⟨front, inside, rest, hevents, hvoid, htags⟩ := hmet.exists_ended hnot
  obtain ⟨front', inside', rest', hevents', hvoid', htags'⟩ := hmet'.exists_ended hnot'
  obtain ⟨hname, -, -⟩ := SourceEvent.endTag.inj hend
  have hopening : ∀ {e : Element}, isVoid e.name = false →
      (e.startTag false).element? e.name = some .opening := by
    intro e hvoid
    simp [Element.startTag, SourceEvent.element?, hvoid]
  have hclosing : ∀ e : Element, e.endTag.element? e.name = some .closing := by
    intro e
    simp [Element.endTag, SourceEvent.element?]
  have hpair : Brackets.Pair (SourceEvent.element? e.name) s.events front.length
      (front.length + 1 + inside.length) :=
    ⟨front, _, inside, _, rest, hevents, rfl, rfl, hopening hvoid, hclosing e, htags⟩
  have hpair' : Brackets.Pair (SourceEvent.element? e.name) s.events front'.length
      (front'.length + 1 + inside'.length) := by
    rw [hname]
    exact ⟨front', _, inside', _, rest', hevents', rfl, rfl, hopening hvoid', hclosing e', htags'⟩
  have hsame : front.length + 1 + inside.length = front'.length + 1 + inside'.length := by
    have hat : s.events[front.length + 1 + inside.length]? = some e.endTag := by
      rw [hevents, Nat.add_assoc, List.getElem?_append_right (Nat.le_add_right _ _)]
      simp [Nat.add_comm 1]
    have hat' : s.events[front'.length + 1 + inside'.length]? = some e'.endTag := by
      rw [hevents', Nat.add_assoc, List.getElem?_append_right (Nat.le_add_right _ _)]
      simp [Nat.add_comm 1]
    exact h.right.index_unique (hend ▸ hat) hat' rfl rfl
  have hlength := hpair.left_unique (hsame ▸ hpair')
  obtain ⟨-, hbehind⟩ := List.append_inj (hevents.symm.trans hevents') hlength
  exact List.head_eq_of_cons_eq hbehind

/-- At the end of the source every element has been met. -/
theorem met_of_unclosed? (h : Recounted a s)
    (hu : a.reader.table.unclosed? a.reader.insideTag = none) {index : Nat}
    (he : a.reader.table.elements[index]? = some e) : e.Met s.events := by
  obtain ⟨hcurrent, -⟩ := h.toConsistent.closed_of_finish hu he
  rcases h.recounts.met index e he with hc | ⟨p, hp, -⟩ | hmet
  · rw [hcurrent] at hc
    cases hc
  · cases hpending : a.reader.table.pending with
    | nil =>
      rw [hpending] at hp
      cases hp
    | cons q rest => simp [ElementTable.unclosed?, hpending] at hu
  · exact hmet

theorem endTagsMatch (h : Recounted a s) (henters : a.reader.Enters s)
    (hu : a.reader.table.unclosed? a.reader.insideTag = none) :
    a.template.EndTagsMatch s.events where
  element name selfClosing start stop hmem := by
    obtain ⟨index, e, he, -, htag⟩ := h.exists_element henters hmem
    exact ⟨index, e, he, htag⟩
  startTag_mem index e he hnot := by
    obtain ⟨front, inside, rest, hevents, -⟩ := (h.met_of_unclosed? hu he).exists_ended hnot
    simp [hevents]
  firstEnd index e he hnot front behind hevents behind' hsame start stop := by
    rw [← firstEnd_tagsOf_iff, hsame, firstEnd_tagsOf_iff]
    exact h.firstEnd_iff (h.met_of_unclosed? hu he) hnot hevents
  closes_one i j e e' hi hj hnot hnot' hend := by
    have htag := h.startTag_eq_of_endTag (h.met_of_unclosed? hu hi) (h.met_of_unclosed? hu hj)
      hnot hnot' hend
    obtain ⟨-, -, -, hstart, -⟩ := SourceEvent.startTag.inj htag
    have hnodup : a.reader.table.starts.Nodup := h.increasing.imp Nat.ne_of_lt
    have hget : ∀ {i : Nat} {e : Element}, a.reader.table.elements[i]? = some e →
        a.reader.table.starts[i]? = some e.openStart := by
      intro i e he
      simp [ElementTable.starts, he]
    have hlt := (List.getElem?_eq_some_iff.mp (hget hi)).1
    exact (List.getElem?_inj hlt hnodup).mp ((hget hi).trans (hstart ▸ (hget hj).symm))

/-- An element that still waits for its end tag has none. -/
theorem lost_of_pending (h : Recounted a s) {p : OpenElement} (hp : p ∈ a.reader.table.pending) :
    ∃ name : TagName, a.reader.table.nameText p.element = name.text ∧ s.Lost name := by
  obtain ⟨e, front, inside, he, hname, hevents, hawaits⟩ := h.recounts.pending p hp
  have htext : a.reader.table.nameText p.element = e.name.text := by
    rw [ElementTable.nameText, he]
    rfl
  have hvoid : isVoid e.name = false := hname ▸ hawaits.void
  exact ⟨e.name, htext, .noEnd hevents hvoid fun _ _ =>
    not_firstEnd_of_neverBelow hvoid (hname ▸ hawaits.tags)⟩

/-- What is reported at the end of the source has no end tag. -/
theorem lost_of_unclosed? (h : Recounted a s) {text : String}
    (hu : a.reader.table.unclosed? a.reader.insideTag = some text) :
    ∃ name : TagName, name.text = text ∧ s.Lost name := by
  unfold ElementTable.unclosed? at hu
  split at hu
  · next p rest hpending =>
    cases hu
    obtain ⟨name, htext, hlost⟩ := h.lost_of_pending (hpending ▸ List.mem_cons_self)
    exact ⟨name, htext.symm, hlost⟩
  · split at hu
    · obtain ⟨index, hi, rfl⟩ := Option.map_eq_some_iff.mp hu
      obtain ⟨-, -, e, he, -⟩ := h.tracks.current index hi
      have hname := (h.recounts.current index hi).2 e he
      refine ⟨e.name, ?_, .unfinished ?_ ?_⟩
      · rw [ElementTable.nameText, he]
        rfl
      · rw [h.recounts.carries_eq, hi]
        rfl
      · rw [h.recounts.lexer_eq, hname]
    · cases hu

/-- If an element has no end tag, one is reported. -/
theorem exists_unclosed?_of_lost (h : Recounted a s) (henters : a.reader.Enters s)
    {name : TagName} (hlost : s.Lost name) :
    ∃ text, a.reader.table.unclosed? a.reader.insideTag = some text := by
  refine Option.ne_none_iff_exists'.mp fun hu => ?_
  cases hlost with
  | @noEnd front behind start stop hevents hvoid hnone =>
    have hmem : .startTag name false true start stop ∈ s.events := by simp [hevents]
    obtain ⟨index, e, he, -, htag⟩ := h.exists_element henters hmem
    have hname : e.name = name := (SourceEvent.startTag.inj htag).1
    have hnot : ¬e.ClosesItself s.events := by
      rintro (hvoid' | htrue)
      · rw [hname, hvoid] at hvoid'
        cases hvoid'
      · have heq := h.right.eq_of_start htrue (htag ▸ hmem) rfl rfl
        simp [Element.startTag] at heq
    have hfirst := (h.firstEnd_iff (h.met_of_unclosed? hu he) hnot (htag ▸ hevents)).mpr ⟨rfl, rfl⟩
    exact hnone _ _ (hname ▸ hfirst)
  | unfinished hcarries hname =>
    rw [h.recounts.carries_eq] at hcarries
    obtain ⟨index, hi⟩ := Option.isSome_iff_exists.mp hcarries
    obtain ⟨-, -, e, he, -⟩ := h.tracks.current index hi
    have hnone := (h.toConsistent.closed_of_finish hu he).1
    rw [hi] at hnone
    cases hnone

end Assembly.Recounted

/-! ## 4. All sources -/

section

variable {source : String} {declarations : List (Declaration ω δ)} {a : Assembly ω δ}

theorem Assembly.recounted_of_pass
    (h : (pieces source).foldlM addPiece (atStart source declarations) = .ok a) :
    Recounted a (Scan.ofSource source declarations) ∧
      a.reader.Enters (Scan.ofSource source declarations) :=
  ⟨((Recounted.initial _ declarations).of_foldlM h).2,
    enters_of_foldlM (.initial _ declarations) .initial h⟩

theorem Assembly.endTagsMatch_of_compile? {t : Template ω δ}
    (h : compile? source declarations = .ok (a, t)) :
    t.EndTagsMatch (SourceEvent.ofSource source declarations) := by
  obtain ⟨hfold, hfinish⟩ := compile?_eq_atStart h
  obtain ⟨hrecounted, henters⟩ := recounted_of_pass hfold
  obtain ⟨-, -, hu, rfl⟩ := finish_eq_ok hfinish
  exact hrecounted.endTagsMatch henters hu

/-- If an element is reported, it has no end tag, and no other fault has been found before. -/
theorem lost_of_compile? {text : String}
    (h : compile? source declarations = .error (.unclosedElement text)) :
    Passes source declarations ∧
      ∃ name : TagName, name.text = text ∧ (Scan.ofSource source declarations).Lost name := by
  rcases compile?_eq_error h with ⟨other, -, he⟩ | ⟨hfirst, ⟨front, p, back, a, -, -, hr⟩ | h⟩
  · cases he
  · cases hr
  · obtain ⟨a, hfold, hfinish⟩ := h
    rcases Assembly.finish_eq_error hfinish with ⟨-, he⟩ | ⟨hopen, other, hu, he⟩ | ⟨-, he⟩
    · cases he
    · cases he
      exact ⟨⟨(firstRepeated?_eq_none hfirst).1, a, hfold, hopen⟩,
        (Assembly.recounted_of_pass hfold).1.lost_of_unclosed? hu⟩
    · cases he

/-- A source in which an element has no end tag is refused: for that, if no other fault is found
before its end. -/
theorem compile?_of_lost {name : TagName} (hlost : (Scan.ofSource source declarations).Lost name) :
    ∃ e, compile? source declarations = .error e ∧ (Passes source declarations ↔
      ∃ lost : TagName, (Scan.ofSource source declarations).Lost lost ∧
        e = .unclosedElement lost.text) := by
  have hunclosed : ∀ a, (pieces source).foldlM Assembly.addPiece
      (Assembly.atStart source declarations) = .ok a →
      ∃ text, a.reader.table.unclosed? a.reader.insideTag = some text := by
    intro a hfold
    obtain ⟨hrecounted, henters⟩ := Assembly.recounted_of_pass hfold
    exact hrecounted.exists_unclosed?_of_lost henters hlost
  cases hcompile : compile? source declarations with
  | ok result =>
    obtain ⟨hfold, hfinish⟩ := compile?_eq_atStart hcompile
    obtain ⟨text, hu⟩ := hunclosed _ hfold
    obtain ⟨-, -, hnone, -⟩ := Assembly.finish_eq_ok hfinish
    rw [hnone] at hu
    cases hu
  | error e =>
    refine ⟨e, rfl, fun ⟨hnodup, a, hfold, hopen⟩ => ?_, ?_⟩
    · obtain ⟨text, hu⟩ := hunclosed a hfold
      have herror := (compile?_eq_finish hnodup hfold).symm.trans hcompile
      rw [Assembly.finish_of_unclosed? hopen hu] at herror
      cases herror
      obtain ⟨lost, rfl, hlost'⟩ := (Assembly.recounted_of_pass hfold).1.lost_of_unclosed? hu
      exact ⟨lost, hlost', rfl⟩
    · rintro ⟨lost, -, rfl⟩
      exact (lost_of_compile? hcompile).1

end

/-- The elements of every compiled template have the end tags that belong to them, whatever other
elements there are. A source in which an element has none is refused for that, unless another
fault is found before its end; and only such sources are. -/
theorem endTagsMatch_of_compile (source : String) (declarations : List (Declaration ω δ)) :
    (∀ c, Component.compile source declarations = .ok c →
      c.template.EndTagsMatch (SourceEvent.ofSource source declarations)) ∧
    (∀ w, Wrapper.compile source declarations = .ok w →
      w.template.EndTagsMatch (SourceEvent.ofSource source declarations)) ∧
    (∀ name, (Scan.ofSource source declarations).Lost name →
      ∃ e, Component.compile source declarations = .error e ∧
        Wrapper.compile source declarations = .error e ∧
          (Passes source declarations ↔ ∃ lost : TagName,
            (Scan.ofSource source declarations).Lost lost ∧ e = .unclosedElement lost.text)) ∧
    ∀ text, Component.compile source declarations = .error (.unclosedElement text) ∨
        Wrapper.compile source declarations = .error (.unclosedElement text) →
      ∃ name : TagName, name.text = text ∧ (Scan.ofSource source declarations).Lost name := by
  refine ⟨fun c h => ?_, fun w h => ?_, fun name hlost => ?_, fun text h => ?_⟩
  · obtain ⟨a, t, ht, -, rfl⟩ := Component.compile_eq_ok h
    exact Assembly.endTagsMatch_of_compile? ht
  · obtain ⟨a, t, content, ht, -, rfl⟩ := Wrapper.compile_eq_ok h
    exact Assembly.endTagsMatch_of_compile? ht
  · obtain ⟨e, he, hpasses⟩ := compile?_of_lost hlost
    exact ⟨e, Component.compile_of_compile? he, Wrapper.compile_of_compile? he, hpasses⟩
  · have hcompile : compile? source declarations = .error (.unclosedElement text) := by
      rcases h with h | h
      · rcases Component.compile_eq_error h with h | ⟨a, t, -, -, he⟩
        · exact h
        · cases he
      · rcases Wrapper.compile_eq_error h with h | ⟨a, t, -, -, he⟩
        · exact h
        · cases he
    exact (lost_of_compile? hcompile).2

/-- The source `<b ${outer}><i ${across}><b ${none}/><B>x</B><b ${inner}>y</b></b></i>`. -/
def crossedElementsSource : String :=
  "<b $\x7bouter\x7d><i $\x7bacross\x7d><b $\x7bnone\x7d/><B>x</B><b $\x7binner\x7d>y</b></b></i>"

/-- Its declarations. -/
def crossedElements : List (Declaration Unit Unit) :=
  [.attributes "outer" fun _ => pure (), .attributes "across" fun _ => pure (),
   .attributes "none" fun _ => pure (), .attributes "inner" fun _ => pure ()]

/-- The source `<b ${outer}><b>x</b>`. -/
def lostEndSource : String := "<b $\x7bouter\x7d><b>x</b>"

/-- Its declarations. -/
def lostEnd : List (Declaration Unit Unit) := [.attributes "outer" fun _ => pure ()]

/-- Elements of one name stand in each other, and one of another name overlaps them; and one end
tag is not enough for two start tags. -/
theorem endTagsMatch_of_crossedElements :
    (∃ c, Component.compile crossedElementsSource crossedElements = .ok c ∧
      c.template.elements.toList.map (fun e => [e.openStart, e.closeStart, e.closeEnd]) =
        [[0, 30, 34], [4, 34, 38], [8, 13, 13], [21, 26, 30]] ∧
      c.template.EndTagsMatch (SourceEvent.ofSource crossedElementsSource crossedElements)) ∧
    ∃ name : TagName, (Scan.ofSource lostEndSource lostEnd).Lost name ∧
      Passes lostEndSource lostEnd ∧
        Wrapper.compile lostEndSource lostEnd = .error (.unclosedElement "b") := by
  have hrun : ((Component.compile crossedElementsSource crossedElements).toOption.any fun c =>
      c.template.elements.toList.map (fun e => [e.openStart, e.closeStart, e.closeEnd]) =
        [[0, 30, 34], [4, 34, 38], [8, 13, 13], [21, 26, 30]]) = true := by
    decide +kernel
  obtain ⟨c, hc, hvalues⟩ := exists_ok_of_any hrun
  have hrefused :
      failsWith (Component.compile lostEndSource lostEnd) (.unclosedElement "b") = true := by
    decide +kernel
  have hcompile := eq_error_of_failsWith hrefused
  obtain ⟨name, htext, hlost⟩ := (endTagsMatch_of_compile _ _).2.2.2 "b" (.inl hcompile)
  obtain ⟨e, he, hwrapper, hpasses⟩ := (endTagsMatch_of_compile _ _).2.2.1 name hlost
  cases hcompile.symm.trans he
  exact ⟨⟨c, hc, of_decide_eq_true hvalues, (endTagsMatch_of_compile _ _).1 c hc⟩,
    name, hlost, hpasses.mpr ⟨name, hlost, by rw [htext]⟩, hwrapper⟩

end HtmlTemplate
