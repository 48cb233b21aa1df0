import HtmlTemplate.Proofs.Markup.Counting
import HtmlTemplate.Proofs.Markup.Reading

/-!
# What every byte keeps

The table of a tag reader, the list of the elements that wait for their end tags and the tag being
read fit each other, whatever bytes and markers come and whatever has been compiled when they come.
An end tag that crosses a wrapper breaks nothing of this, but it takes an element off the list that
it does not close, so that this element is lost.

Results:
1. `TagLexer.WithinName.step`: no more of an end tag has been met than there is of it.
   `TagLexer.Goes`: what a byte that ends no tag may do, or a marker.
2. `TagReader.Ordered`, `TagReader.Waiting`, `TagReader.Complete`: where the elements stand, what is
   known of those that wait, and that none is lost.
3. `Sound.step`, `Sound.feed`, `Sound.interrupt`, `Sound.attachMarker`, `Sound.markContent`: what is
   kept by each byte and at each kind of marker.
-/

namespace HtmlTemplate

open Markup

/-! ## 1. Lexers -/

namespace TagLexer

variable {l : TagLexer}

/-- In raw text, no more has been met than the `</` and the name of an end tag. -/
def WithinName (l : TagLexer) : Prop :=
  ∀ met, l.state = .rawText met → met ≤ l.rawName.size + 2

theorem withinName_of_ne (h : ∀ met, l.state ≠ .rawText met) : l.WithinName :=
  fun met hmet => absurd hmet (h met)

theorem withinName_of_eq {met : Nat} (hmet : l.state = .rawText met)
    (hle : met ≤ l.rawName.size + 2) : l.WithinName := by
  intro met' hmet'
  obtain rfl : met = met' := TagState.rawText.inj (hmet.symm.trans hmet')
  exact hle

theorem WithinName.readRawText (h : l.WithinName) {met : Nat} (hmet : l.state = .rawText met)
    (byte : UInt8) : (l.readRawText met byte).1.WithinName := by
  have hle := h met hmet
  unfold TagLexer.readRawText
  split
  · exact withinName_of_eq rfl (Nat.succ_le_succ (Nat.zero_le _))
  · split
    · exact withinName_of_eq rfl (Nat.le_add_left 2 _)
    · split
      · next hletter =>
        -- A byte of the name is met, so the name does not end in front of it.
        have hlt : met - 2 < l.rawName.size := (Array.getElem?_eq_some_iff.mp hletter.2).1
        have hnext : met + 1 ≤ l.rawName.size + 2 := by omega
        exact withinName_of_eq rfl hnext
      · split
        · exact withinName_of_ne (by simp [endEndTag])
        · split
          · exact withinName_of_ne (by simp)
          · exact withinName_of_eq rfl (Nat.zero_le _)

theorem withinName_endStartTag (l : TagLexer) : l.endStartTag.1.WithinName := by
  unfold endStartTag
  simp only
  split
  · exact withinName_of_eq rfl (Nat.zero_le _)
  · exact withinName_of_ne (by simp)

theorem WithinName.read (h : l.WithinName) (byte : UInt8) : (l.read byte).1.WithinName := by
  unfold TagLexer.read
  split
  case h_12 met hmet => exact h.readRawText hmet byte
  -- Apart from raw text itself, only the end of a start tag leads into raw text.
  case h_4 hs =>
    unfold readTagName
    split
    · exact l.withinName_endStartTag
    · (repeat' split) <;> exact withinName_of_ne (by simp [growName, hs])
  case h_5 hs =>
    unfold readInTag
    split
    · exact l.withinName_endStartTag
    · (repeat' split) <;> exact withinName_of_ne (by simp [hs])
  all_goals
    next hs =>
    simp only [readText, readLessThan, readLessThanSlash, readEndTagName, endEndTag, startName,
      growName, TagState.afterBang, TagState.afterComment]
    (repeat' split) <;> exact withinName_of_ne (by simp [hs])

theorem WithinName.step (h : l.WithinName) (byte : UInt8) : (l.step byte).1.WithinName :=
  h.read byte

/-- A marker makes raw text begin anew. -/
theorem withinName_interrupt (l : TagLexer) : l.interrupt.WithinName := by
  intro met hmet
  rw [state_interrupt] at hmet
  cases hs : l.state <;> rw [hs] at hmet <;> cases hmet
  exact Nat.zero_le _

/-- What a byte that ends no tag may do, or a marker: the lexer is outside of tags, has read a `<`,
or goes on with the same tag, of which it may decide that it is a start tag. -/
inductive Goes (l : TagLexer) : TagLexer → Prop
  | outside {l' : TagLexer} : l.state.stage ≠ .opening → l'.state.stage = .outside → Goes l l'
  | start {l' : TagLexer} : l.state.stage ≠ .opening → l'.state.stage = .started →
      l'.tagStart = l.offset → l.offset < l'.offset → Goes l l'
  | inside {l' : TagLexer} : l.state.stage ≠ .outside →
      (l'.state.stage = l.state.stage ∨ l'.state.stage = .opening) → l'.tagStart = l.tagStart →
      Goes l l'

theorem Reads.goes {l l' : TagLexer} (h : l.Reads l' none) (ho : l'.offset = l.offset + 1) :
    l.Goes l' := by
  cases h with
  | outside hne hs => exact .outside hne hs
  | start hne hs ht => exact .start hne hs ht (ho ▸ Nat.lt_succ_self _)
  | started hs hs' ht => exact .inside (by simp [hs]) (.inl (hs'.trans hs.symm)) ht
  | opening hne hs ht => exact .inside hne (.inr hs) ht

theorem goes_interrupt (l : TagLexer) : l.Goes l.interrupt := by
  by_cases hl : l.state.stage = .outside
  · have hs : l.interrupt.state.stage = .outside :=
      l.state.stage_interrupted.elim id fun hs => hs.trans hl
    exact .outside (by simp [hl]) hs
  · rcases l.state.stage_interrupted with hs | hs
    · refine .outside (fun hopen => ?_) hs
      exact absurd ((l.state.stage_interrupted_eq_opening.mpr hopen).symm.trans hs) (by decide)
    · exact .inside hl (.inl hs) rfl

end TagLexer

/-! ## 2. Readers -/

namespace TagReader

/-- The start tags of the elements stand one behind the other, and the tag being read stands behind
them, if it is not that of the last element itself. -/
structure Ordered (r : TagReader) : Prop where
  tagStart_lt : r.lexer.state.stage ≠ .outside → r.lexer.tagStart < r.lexer.offset
  increasing : r.table.starts.Pairwise (· < ·)
  start_lt : ∀ start ∈ r.table.starts, start < r.lexer.offset
  start_lt_tagStart : r.lexer.state.stage ≠ .outside → r.table.current = none →
    ∀ start ∈ r.table.starts, start < r.lexer.tagStart
  /-- Only in a start tag is there a current element, which is the last one. -/
  current : ∀ index, r.table.current = some index → r.lexer.state.stage = .opening ∧
    index + 1 = r.table.starts.length ∧ r.table.starts[index]? = some r.lexer.tagStart

/-- The elements that wait are in the table, in the order of their start tags, which have ended. -/
structure Waiting (fed : List Surroundings) (r : TagReader) : Prop where
  listed : (r.table.pending.map OpenElement.element ++ r.table.current.toList).Pairwise (· < ·)
  opened : ∀ index ∈ r.table.pending.map OpenElement.element, ∃ e : Element,
    r.table.elements[index]? = some e ∧ e.OpenedIn fed ∧
      (r.lexer.state.stage = .started → e.openEnd ≤ r.lexer.tagStart)
  decreasing : OpenElement.Decreasing r.table.pending

/-- No element is lost: it is the current one, or waits for its end tag, or is closed. -/
def Complete (fed : List Surroundings) (r : TagReader) : Prop :=
  ∀ (index : Nat) (e : Element), r.table.elements[index]? = some e →
    r.table.current = some index ∨ index ∈ r.table.pending.map OpenElement.element ∨
      e.ClosedIn fed

/-- What holds of a reader, whatever was called before. The list `fed` says for each byte what had
been compiled when it was read. -/
structure Sound (fed : List Surroundings) (r : TagReader) : Prop
    extends r.Ordered, r.Waiting fed where
  length_fed : fed.length = r.lexer.offset
  withinName : r.lexer.WithinName

variable {r : TagReader} {fed : List Surroundings} {around : Surroundings} {l' : TagLexer}

/-! ## 3. Bytes that end no tag -/

theorem Ordered.goes (h : r.Ordered) (hgoes : r.lexer.Goes l') (ho : r.lexer.offset ≤ l'.offset) :
    ({ r with lexer := l' } : TagReader).Ordered := by
  have hlt : ∀ start ∈ r.table.starts, start < l'.offset := fun start hmem =>
    Nat.lt_of_lt_of_le (h.start_lt start hmem) ho
  cases hgoes with
  | outside hne hs =>
    refine ⟨fun hs' => absurd hs hs', h.increasing, hlt, fun hs' => absurd hs hs', ?_⟩
    exact fun index hi => absurd (h.current index hi).1 hne
  | start hne hs ht hlt' =>
    refine ⟨fun _ => ?_, h.increasing, hlt, fun _ _ => ?_, ?_⟩
    · show l'.tagStart < l'.offset
      rwa [ht]
    · show ∀ start ∈ r.table.starts, start < l'.tagStart
      rw [ht]
      exact h.start_lt
    · exact fun index hi => absurd (h.current index hi).1 hne
  | inside hne hs ht =>
    refine ⟨fun _ => ?_, h.increasing, hlt, fun _ hnone => ?_, fun index hi => ?_⟩
    · show l'.tagStart < l'.offset
      rw [ht]
      exact Nat.lt_of_lt_of_le (h.tagStart_lt hne) ho
    · show ∀ start ∈ r.table.starts, start < l'.tagStart
      rw [ht]
      exact h.start_lt_tagStart hne hnone
    · obtain ⟨hopen, hlast⟩ := h.current index hi
      refine ⟨hs.elim (fun hs => hs.trans hopen) id, ?_⟩
      show _ ∧ _ = some l'.tagStart
      rwa [ht]

theorem Waiting.goes (h : r.Waiting fed) (hlength : fed.length = r.lexer.offset)
    (hgoes : r.lexer.Goes l') (more : List Surroundings) :
    ({ r with lexer := l' } : TagReader).Waiting (fed ++ more) := by
  refine ⟨h.listed, fun index hi => ?_, h.decreasing⟩
  obtain ⟨e, he, hopened, hend⟩ := h.opened index hi
  refine ⟨e, he, hopened.append more, fun hs => ?_⟩
  change l'.state.stage = .started at hs
  show e.openEnd ≤ l'.tagStart
  cases hgoes with
  | outside hne hs' => exact absurd (hs.symm.trans hs') (by decide)
  | start hne hs' ht hlt =>
    rw [ht, ← hlength]
    exact hopened.le_length
  | inside hne hs' ht =>
    rcases hs' with hs' | hs'
    · rw [ht]
      exact hend (hs'.symm.trans hs)
    · exact absurd (hs.symm.trans hs') (by decide)

theorem Complete.append (h : r.Complete fed) (more : List Surroundings) (l' : TagLexer) :
    ({ r with lexer := l' } : TagReader).Complete (fed ++ more) :=
  fun index e he => (h index e he).imp_right (Or.imp_right fun hc => hc.append more)

/-! ## 4. Bytes that end a tag -/

/-- Behind a tag there is no current element. -/
theorem Ordered.behindTag (h : r.Ordered) {table : ElementTable}
    (hs : l'.state.stage = .outside) (ho : r.lexer.offset ≤ l'.offset)
    (hstarts : table.starts = r.table.starts) (hcurrent : table.current = none) :
    ({ lexer := l', table := table } : TagReader).Ordered := by
  refine ⟨fun hs' => absurd hs hs', ?_, ?_, fun hs' => absurd hs hs', ?_⟩
  · show table.starts.Pairwise (· < ·)
    rw [hstarts]
    exact h.increasing
  · show ∀ start ∈ table.starts, start < l'.offset
    rw [hstarts]
    exact fun start hmem => Nat.lt_of_lt_of_le (h.start_lt start hmem) ho
  · intro index hi
    exact absurd (hcurrent.symm.trans hi) (by simp)

/-- Behind a tag it does not matter where the next one may begin. -/
theorem Waiting.behindTag {table : ElementTable} (hs : l'.state.stage = .outside)
    (hcurrent : table.current = none)
    (hlisted : (table.pending.map OpenElement.element).Pairwise (· < ·))
    (hopened : ∀ index ∈ table.pending.map OpenElement.element, ∃ e : Element,
      table.elements[index]? = some e ∧ e.OpenedIn fed)
    (hdecreasing : OpenElement.Decreasing table.pending) :
    ({ lexer := l', table := table } : TagReader).Waiting fed := by
  refine ⟨?_, fun index hi => ?_, hdecreasing⟩
  · show (table.pending.map OpenElement.element ++ table.current.toList).Pairwise (· < ·)
    rw [hcurrent, Option.toList_none, List.append_nil]
    exact hlisted
  · obtain ⟨e, he, hopen⟩ := hopened index hi
    exact ⟨e, he, hopen, fun hs' => absurd (hs.symm.trans hs') (by decide)⟩

theorem Waiting.increasing_pending (h : r.Waiting fed) :
    (r.table.pending.map OpenElement.element).Pairwise (· < ·) :=
  (List.pairwise_append.mp h.listed).1

/-- An element that waits comes before the current one. -/
theorem Waiting.lt_of_current (h : r.Waiting fed) {index other : Nat}
    (hi : r.table.current = some index)
    (hother : other ∈ r.table.pending.map OpenElement.element) : other < index := by
  have hlisted := h.listed
  rw [hi] at hlisted
  exact (List.pairwise_append.mp hlisted).2.2 other hother index (List.mem_singleton_self index)

/-- What waits is not changed together with the current element. -/
theorem Waiting.opened_modify (h : r.Waiting fed) {index : Nat} (hi : r.table.current = some index)
    (f : Element → Element) (more : List Surroundings) :
    ∀ other ∈ r.table.pending.map OpenElement.element, ∃ e : Element,
      (r.table.elements.modify index f)[other]? = some e ∧ e.OpenedIn (fed ++ more) := by
  intro other hother
  obtain ⟨e, he, hopened, -⟩ := h.opened other hother
  refine ⟨e, ?_, hopened.append more⟩
  rw [Array.getElem?_modify, if_neg (Nat.ne_of_gt (h.lt_of_current hi hother))]
  exact he

/-- The current element is that of the start tag being read. -/
theorem Ordered.exists_of_current (h : r.Ordered) {index : Nat}
    (hi : r.table.current = some index) :
    ∃ e : Element, r.table.elements[index]? = some e ∧ e.openStart = r.lexer.tagStart := by
  obtain ⟨-, -, hstart⟩ := h.current index hi
  rw [ElementTable.starts, List.getElem?_map, Array.getElem?_toList] at hstart
  exact Option.map_eq_some_iff.mp hstart

/-- The start tag of the current element begins before the byte that ends it. -/
theorem Ordered.openStart_lt (h : r.Ordered) {index : Nat} (hi : r.table.current = some index)
    {e : Element} (hopen : e.openStart = r.lexer.tagStart) : e.openStart < r.lexer.offset + 1 := by
  have hs := (h.current index hi).1
  exact hopen ▸ Nat.lt_succ_of_lt (h.tagStart_lt (by simp [hs]))

section OpenTag

variable (hsound : r.Sound fed) (around : Surroundings) (name : TagName) (selfClosing : Bool)
include hsound

theorem Sound.waiting_openTag (hs : l'.state.stage = .outside) :
    ({ lexer := l'
       table := r.table.openTag around name selfClosing (r.lexer.offset + 1) } :
      TagReader).Waiting (fed ++ [around]) := by
  have hlisted := hsound.increasing_pending
  cases hi : r.table.current with
  | none =>
    have hmap := ElementTable.map_element_openTag_of_none around name selfClosing
      (r.lexer.offset + 1) hi
    refine .behindTag hs (ElementTable.current_openTag _ _ _ _ _) (hmap ▸ hlisted) ?_ ?_
    · rw [hmap, ElementTable.openTag_of_none hi]
      intro index hmem
      obtain ⟨e, he, hopened, -⟩ := hsound.opened index hmem
      exact ⟨e, he, hopened.append [around]⟩
    · rw [ElementTable.openTag_of_none hi]
      show OpenElement.Decreasing (if _ then _ else _)
      split
      · exact hsound.decreasing
      · exact hsound.decreasing.countOpening name
  | some index =>
    cases hclosing : selfClosing || Markup.isVoid name with
    | true =>
      rw [ElementTable.openTag_of_closing hi hclosing]
      exact .behindTag hs rfl hlisted (hsound.opened_modify hi _ _) hsound.decreasing
    | false =>
      -- The element of the tag is the last one that waits now.
      have hmap := ElementTable.map_element_openTag_of_opening around (r.lexer.offset + 1) hi
        hclosing
      obtain ⟨e, he, hopen⟩ := hsound.exists_of_current hi
      have hstart := hsound.openStart_lt hi hopen
      refine .behindTag hs (ElementTable.current_openTag _ _ _ _ _) ?_ ?_ ?_
      · have hwithCurrent := hsound.listed
        rw [hi] at hwithCurrent
        exact hmap ▸ hwithCurrent
      · rw [hmap, ElementTable.openTag_of_opening hi hclosing]
        intro other hother
        rcases List.mem_append.mp hother with hother | hother
        · exact hsound.opened_modify hi _ _ other hother
        · obtain rfl := List.mem_singleton.mp hother
          refine ⟨e.endOpen (r.lexer.offset + 1) around.markers, ?_, .endOpen ?_ hstart⟩
          · simp only [Array.getElem?_modify, if_true, he, Option.map_some]
          · rw [hsound.length_fed]
      · rw [ElementTable.openTag_of_opening hi hclosing]
        exact hsound.decreasing.concat name index around.depth

/-- The element of the tag waits now, or is closed by the tag. -/
theorem Sound.complete_openTag (h : r.Complete fed) :
    ({ lexer := l'
       table := r.table.openTag around name selfClosing (r.lexer.offset + 1) } :
      TagReader).Complete (fed ++ [around]) := by
  have hother : ∀ (other : Nat) (e : Element), r.table.elements[other]? = some e →
      r.table.current ≠ some other → other ∈ r.table.pending.map OpenElement.element ∨
        e.ClosedIn (fed ++ [around]) := by
    intro other e he hne
    exact ((h other e he).resolve_left hne).imp_right fun hc => hc.append [around]
  intro other e he
  refine .inr ?_
  cases hi : r.table.current with
  | none =>
    show other ∈ List.map _ (r.table.openTag _ _ _ _).pending ∨ _
    rw [ElementTable.map_element_openTag_of_none _ _ _ _ hi]
    rw [ElementTable.openTag_of_none hi] at he
    exact hother other e he (by simp [hi])
  | some index =>
    obtain ⟨current, hcurrent, hopen⟩ := hsound.exists_of_current hi
    have hstart := hsound.openStart_lt hi hopen
    have hne : index ≠ other → r.table.current ≠ some other := fun hne hcur =>
      hne (Option.some.inj (hi.symm.trans hcur))
    cases hclosing : selfClosing || Markup.isVoid name with
    | true =>
      rw [ElementTable.openTag_of_closing hi hclosing] at he ⊢
      change (r.table.elements.modify index _)[other]? = some e at he
      rw [Array.getElem?_modify] at he
      split at he
      · next heq =>
        obtain rfl := heq
        rw [hcurrent] at he
        cases he
        exact .inr (Element.closedIn_endOpen (by rw [hsound.length_fed]) hstart)
      · next heq => exact hother other e he (hne heq)
    | false =>
      show other ∈ List.map _ (r.table.openTag _ _ _ _).pending ∨ _
      rw [ElementTable.map_element_openTag_of_opening _ _ hi hclosing, List.mem_append]
      rw [ElementTable.openTag_of_opening hi hclosing] at he
      change (r.table.elements.modify index _)[other]? = some e at he
      rw [Array.getElem?_modify] at he
      split at he
      · next heq => exact .inl (.inr (heq ▸ List.mem_singleton_self index))
      · next heq => exact (hother other e he (hne heq)).imp_left .inl

end OpenTag

section CloseTag

variable (hsound : r.Sound fed) (around : Surroundings) (name : TagName)
include hsound

/-- Behind a `<` that does not begin a start tag there is no current element. -/
theorem Sound.current_of_started (hs : r.lexer.state.stage = .started) :
    r.table.current = none := by
  cases hi : r.table.current with
  | none => rfl
  | some index => exact absurd ((hsound.current index hi).1.symm.trans hs) (by decide)

theorem Sound.waiting_closeTag (hs : r.lexer.state.stage = .started)
    (hs' : l'.state.stage = .outside) :
    ({ lexer := l'
       table := (r.table.closeTag around name r.lexer.tagStart (r.lexer.offset + 1)).1 } :
      TagReader).Waiting (fed ++ [around]) := by
  have hsublist := OpenElement.sublist_element_closeAll name around.depth r.table.pending
  refine .behindTag hs' (hsound.current_of_started hs) ?_ ?_
    (hsound.decreasing.closeAll name around.depth)
  · exact hsound.increasing_pending.sublist hsublist
  · intro index hmem
    obtain ⟨e, he, hopened, -⟩ := hsound.opened index (hsublist.mem hmem)
    rw [ElementTable.getElem?_closeTag, he]
    split
    · exact ⟨_, rfl, (hopened.append [around]).congr rfl rfl rfl⟩
    · exact ⟨e, rfl, hopened.append [around]⟩

/-- An end tag that crosses nothing closes what it takes off the list. -/
theorem Sound.complete_closeTag (h : r.Complete fed) (hs : r.lexer.state.stage = .started)
    (hcrossed : (r.table.closeTag around name r.lexer.tagStart (r.lexer.offset + 1)).2 = none) :
    ({ lexer := l'
       table := (r.table.closeTag around name r.lexer.tagStart (r.lexer.offset + 1)).1 } :
      TagReader).Complete (fed ++ [around]) := by
  have hnot : (OpenElement.closeAll name around.depth r.table.pending).crossed = none :=
    Option.map_eq_none_iff.mp hcrossed
  intro index e he
  change (r.table.closeTag around name _ _).1.elements[index]? = some e at he
  rw [ElementTable.getElem?_closeTag] at he
  split at he
  · next hclosed =>
    -- The start tag of an element that waits ends in front of the end tag.
    obtain ⟨p, hp, rfl, -⟩ := OpenElement.exists_of_mem_closed hclosed
    obtain ⟨e₀, he₀, hopened, hend⟩ := hsound.opened p.element (List.mem_map_of_mem hp)
    rw [he₀] at he
    cases he
    exact .inr (.inr (hopened.endClose (by rw [hsound.length_fed]) (hend hs)
      (Nat.lt_succ_of_lt (hsound.tagStart_lt (by simp [hs])))))
  · next hclosed =>
    rcases h index e he with hi | hi | hi
    · exact .inl hi
    · obtain ⟨p, hp, rfl⟩ := List.mem_map.mp hi
      obtain ⟨q, hq, hkey⟩ := List.mem_map.mp
        ((OpenElement.key_mem_or_mem_closed _ _ hnot hp).resolve_right hclosed)
      exact .inr (.inl (List.mem_map.mpr ⟨q, hq, congrArg Prod.fst hkey⟩))
    · exact .inr (.inr (hi.append [around]))

end CloseTag

/-! ## 5. Bytes -/

theorem Sound.step (h : r.Sound fed) (around : Surroundings) (byte : UInt8) :
    (r.step around byte).1.Sound (fed ++ [around]) ∧
      ((r.step around byte).2 = none → r.Complete fed →
        (r.step around byte).1.Complete (fed ++ [around])) := by
  have hreads := r.lexer.reads_step byte
  have ho := r.lexer.offset_step byte
  have hwithin := h.withinName.step byte
  obtain ⟨lexer, table⟩ := r
  unfold TagReader.step
  simp only
  generalize lexer.step byte = next at hreads ho hwithin
  obtain ⟨l', tag⟩ := next
  have hle : lexer.offset ≤ l'.offset := ho ▸ Nat.le_succ _
  have hlength : (fed ++ [around]).length = l'.offset := by
    rw [List.length_append, h.length_fed, ho]
    rfl
  cases tag with
  | none =>
    have hgoes := hreads.goes ho
    exact ⟨{ h.toOrdered.goes hgoes hle, h.toWaiting.goes h.length_fed hgoes [around] with
      length_fed := hlength
      withinName := hwithin }, fun _ hcomplete => hcomplete.append [around] l'⟩
  | some tag =>
    have hstarts := table.starts_addTag around tag
    cases hreads with
    | openTag hs hs' =>
      exact ⟨{ h.toOrdered.behindTag hs' hle hstarts (table.current_openTag around _ _ _),
        h.waiting_openTag around _ _ hs' with
        length_fed := hlength
        withinName := hwithin }, fun _ hcomplete => h.complete_openTag around _ _ hcomplete⟩
    | closeTag hs hs' =>
      exact ⟨{ h.toOrdered.behindTag hs' hle hstarts (h.current_of_started hs),
        h.waiting_closeTag around _ hs hs' with
        length_fed := hlength
        withinName := hwithin },
        fun hcrossed hcomplete => h.complete_closeTag around _ hcomplete hs hcrossed⟩

theorem offset_step_of_eq {byte : UInt8} {next : TagReader} {crossed : Option String}
    (h : r.step around byte = (next, crossed)) : next.offset = r.offset + 1 := by
  have ho := r.lexer.offset_step byte
  unfold TagReader.step at h
  simp only at h
  generalize r.lexer.step byte = after at h ho
  obtain ⟨l', _ | tag⟩ := after
  · cases h
    exact ho
  · cases h
    exact ho

/-- Reading stops behind a byte that crosses a wrapper, and the books are right there. -/
theorem Sound.feed (h : r.Sound fed) (around : Surroundings) (bytes : List UInt8) :
    ∃ count, (r.feed around bytes).1.offset = r.offset + count ∧
      (r.feed around bytes).1.Sound (fed ++ List.replicate count around) ∧
      ((r.feed around bytes).2 = none → r.Complete fed →
        (r.feed around bytes).1.Complete (fed ++ List.replicate count around)) := by
  induction bytes generalizing r fed with
  | nil =>
    refine ⟨0, rfl, ?_, ?_⟩
    · rw [List.replicate_zero, List.append_nil]
      exact h
    · rw [List.replicate_zero, List.append_nil]
      exact fun _ hcomplete => hcomplete
  | cons byte bytes ih =>
    obtain ⟨hnext, hcomplete⟩ := h.step around byte
    have hcons : ∀ count, fed ++ List.replicate (count + 1) around =
        fed ++ [around] ++ List.replicate count around := by
      intro count
      rw [List.replicate_succ, List.append_cons]
    unfold TagReader.feed
    split
    · next next hstep =>
      rw [hstep] at hnext hcomplete
      obtain ⟨count, hoffset, hsound, hrest⟩ := ih hnext
      refine ⟨count + 1, ?_, hcons count ▸ hsound, fun hnone hc => ?_⟩
      · rw [hoffset, offset_step_of_eq hstep]
        omega
      · exact hcons count ▸ hrest hnone (hcomplete rfl hc)
    · next next name hstep =>
      rw [hstep] at hnext
      refine ⟨1, offset_step_of_eq hstep, hnext, fun hnone => ?_⟩
      cases hnone

/-! ## 6. Markers -/

theorem inStartTag_or_inValue_of_stage (h : r.lexer.state.stage = .opening) :
    r.inStartTag = true ∨ r.lexer.state.inValue = true := by
  unfold inStartTag
  cases hs : r.lexer.state with
  | rawText met => cases met <;> simp_all [TagState.stage]
  | _ => simp_all [TagState.stage, TagState.inStartTag, TagState.inValue]

theorem Sound.interrupt (h : r.Sound fed) : r.interrupt.Sound fed := by
  have hgoes := r.lexer.goes_interrupt
  have hwaiting := h.toWaiting.goes h.length_fed hgoes []
  rw [List.append_nil] at hwaiting
  exact { h.toOrdered.goes hgoes (Nat.le_refl _), hwaiting with
    length_fed := h.length_fed
    withinName := r.lexer.withinName_interrupt }

theorem attachMarker_of_some {index : Nat} (hi : r.table.current = some index) :
    r.attachMarker = (r, index) := by
  unfold TagReader.attachMarker ElementTable.attach
  rw [hi]

theorem attachMarker_of_none (hi : r.table.current = none) :
    r.attachMarker =
      ({ r with
          table := { r.table with
            elements := r.table.elements.push
              { name := r.lexer.name, openStart := r.lexer.tagStart }
            current := some r.table.elements.size } },
        r.table.elements.size) := by
  unfold TagReader.attachMarker ElementTable.attach
  rw [hi]

theorem Complete.interrupt (h : r.Complete fed) : r.interrupt.Complete fed := h

/-- An attribute marker is attached to the element of the start tag being read. -/
theorem Sound.exists_attached (h : r.Sound fed) : ∃ e : Element,
    r.attachMarker.1.table.elements[r.attachMarker.2]? = some e ∧
      e.openStart = r.lexer.tagStart := by
  cases hi : r.table.current with
  | some index =>
    rw [attachMarker_of_some hi]
    exact h.exists_of_current hi
  | none =>
    rw [attachMarker_of_none hi]
    exact ⟨_, Array.getElem?_push_size, rfl⟩

/-- The first attribute marker in a start tag makes its element the last one of the table. -/
theorem Sound.attachMarker (h : r.Sound fed) (hs : r.inStartTag = true) :
    r.attachMarker.1.Sound fed := by
  have hopening := stage_of_inStartTag hs
  cases hi : r.table.current with
  | some index =>
    rw [attachMarker_of_some hi]
    exact h
  | none =>
    rw [attachMarker_of_none hi]
    have hstarts : r.table.starts ++ [r.lexer.tagStart] =
        ({ r.table with
          elements := r.table.elements.push { name := r.lexer.name, openStart := r.lexer.tagStart }
          current := some r.table.elements.size } : ElementTable).starts := by
      simp [ElementTable.starts]
    have hbehind := h.start_lt_tagStart (by simp [hopening]) hi
    have hlt := h.tagStart_lt (by simp [hopening])
    refine { h with
      increasing := ?_
      start_lt := ?_
      start_lt_tagStart := fun _ hnone => absurd hnone (by simp)
      current := ?_
      listed := ?_
      opened := ?_ }
    · rw [← hstarts]
      refine List.pairwise_append.mpr ⟨h.increasing, List.pairwise_singleton _ _, ?_⟩
      intro start hmem last hlast
      exact List.mem_singleton.mp hlast ▸ hbehind start hmem
    · rw [← hstarts]
      intro start hmem
      rcases List.mem_append.mp hmem with hmem | hmem
      · exact h.start_lt start hmem
      · exact List.mem_singleton.mp hmem ▸ hlt
    · intro index hindex
      cases hindex
      have hsize : r.table.elements.size = r.table.starts.length := by simp [ElementTable.starts]
      rw [← hstarts, hsize]
      exact ⟨hopening, by simp, by simp⟩
    · have hlisted := h.listed
      rw [hi, Option.toList_none, List.append_nil] at hlisted
      refine List.pairwise_append.mpr ⟨hlisted, List.pairwise_singleton _ _, ?_⟩
      intro index hmem last hlast
      obtain ⟨e, he, -⟩ := h.opened index hmem
      exact List.mem_singleton.mp hlast ▸ (Array.getElem?_eq_some_iff.mp he).1
    · intro index hmem
      obtain ⟨e, he, hopened⟩ := h.opened index hmem
      have hlt := (Array.getElem?_eq_some_iff.mp he).1
      exact ⟨e, by rw [Array.getElem?_push_lt hlt, ← he, Array.getElem?_eq_getElem hlt], hopened⟩

theorem Complete.attachMarker (h : r.Complete fed) : r.attachMarker.1.Complete fed := by
  cases hi : r.table.current with
  | some index =>
    rw [attachMarker_of_some hi]
    exact h
  | none =>
    rw [attachMarker_of_none hi]
    intro index e he
    change (r.table.elements.push _)[index]? = some e at he
    rw [Array.getElem?_push] at he
    split at he
    · next hnew => exact .inl (hnew ▸ rfl)
    · exact .inr ((h index e he).resolve_left (by simp [hi]))

theorem Sound.markContent (h : r.Sound fed) : r.markContent.Sound fed := by
  have hstarts := r.table.starts_markContent
  refine { h with
    increasing := ?_
    start_lt := ?_
    start_lt_tagStart := ?_
    current := ?_
    opened := ?_ }
  · exact hstarts ▸ h.increasing
  · exact hstarts ▸ h.start_lt
  · exact hstarts ▸ h.start_lt_tagStart
  · exact hstarts ▸ h.current
  · intro index hmem
    obtain ⟨e, he, hopened, hend⟩ := h.opened index hmem
    change ∃ e, r.table.markContent.elements[index]? = some e ∧ _
    rw [ElementTable.getElem?_markContent, he]
    split
    · exact ⟨_, rfl, hopened.congr rfl rfl rfl, hend⟩
    · exact ⟨e, rfl, hopened, hend⟩

theorem Complete.markContent (h : r.Complete fed) : r.markContent.Complete fed := by
  intro index e he
  change r.table.markContent.elements[index]? = some e at he
  rw [ElementTable.getElem?_markContent] at he
  split at he
  · next hmem => exact .inr (.inl hmem)
  · exact h index e he

end TagReader

end HtmlTemplate
