import HtmlTemplate.Proofs.Markup.Pending
import HtmlTemplate.Proofs.Markup.Reading
import HtmlTemplate.Proofs.Template.Elements

/-!
# What a tag reader knows

While a template is compiled, its tag reader follows the literal bytes, and is
told how many markers there are and how many wrappers are open. `Tracks` says
that what it has entered into its table is right: about the elements in whose
start tags it stands, about those that wait for their end tags, and about those
that are closed.

Results:
1. `TagLexer.Follows`: no marker stands between a `<` and what decides whether it
   starts a tag, and no wrapper starts or ends in a start tag.
2. `step`, `feed`: reading bytes keeps the table right.
3. `interrupt`, `attach`, `push`, `congr`: so does a marker.
4. `openWrapper`, `closeWrapper`, `markContent`: so do wrappers and the content
   marker.
-/

namespace HtmlTemplate

variable {ω δ : Type} {markers markers' : Array (Marker ω δ)} {content? : Option Place}

/-! ## 1. The lexer among the markers -/

/-- How the tag being read stands to the markers and to the content marker. -/
structure TagLexer.Follows (l : TagLexer) (markers : Array (Marker ω δ))
    (content? : Option Place) : Prop where
  position_le : ∀ (i : Nat) (m : Marker ω δ), markers[i]? = some m → m.position ≤ l.offset
  tagStart_lt : l.state.stage ≠ .outside → l.tagStart < l.offset
  /-- No marker stands behind a `<` that is not decided. -/
  started : l.state.stage = .started → ∀ (i : Nat) (m : Marker ω δ), markers[i]? = some m →
    m.position ≤ l.tagStart
  /-- No wrapper starts or ends in a start tag. -/
  opening : l.state.stage = .opening → ∀ (i : Nat) (m : Marker ω δ), markers[i]? = some m →
    l.tagStart < m.position → m.boundsWrapper = false
  content_le : ∀ x, content? = some x → x.marker ≤ markers.size ∧ x.offset ≤ l.offset
  /-- The content marker does not stand in a tag. -/
  content_outside : ∀ x, content? = some x → l.state.stage ≠ .outside → x.offset ≤ l.tagStart
  content_splits : ∀ x, content? = some x → ∀ (i : Nat) (m : Marker ω δ), markers[i]? = some m →
    (i < x.marker → m.position ≤ x.offset) ∧ (x.marker ≤ i → x.offset ≤ m.position)

namespace TagLexer.Follows

variable {l l' : TagLexer} {m : Marker ω δ}

/-- Outside of tags, all that matters is how far the lexer has come. -/
theorem outside (h : l.Follows markers content?) (ho : l.offset ≤ l'.offset)
    (hs : l'.state.stage = .outside) : l'.Follows markers content? := by
  refine
    { position_le := fun i m hm => Nat.le_trans (h.position_le i m hm) ho
      tagStart_lt := fun hs' => absurd hs hs'
      started := ?_
      opening := ?_
      content_le := ?_
      content_outside := fun x hx hs' => absurd hs hs'
      content_splits := h.content_splits }
  · intro hs'
    rw [hs] at hs'
    cases hs'
  · intro hs'
    rw [hs] at hs'
    cases hs'
  · intro x hx
    exact ⟨(h.content_le x hx).1, Nat.le_trans (h.content_le x hx).2 ho⟩

/-- The lexer goes on with the same tag, of which it may decide that it is a start tag. -/
theorem inside (h : l.Follows markers content?) (ho : l.offset ≤ l'.offset)
    (ht : l'.tagStart = l.tagStart) (hne : l.state.stage ≠ .outside)
    (hs : l'.state.stage = l.state.stage ∨ l'.state.stage = .opening) :
    l'.Follows markers content? := by
  refine
    { position_le := fun i m hm => Nat.le_trans (h.position_le i m hm) ho
      tagStart_lt := ?_
      started := ?_
      opening := ?_
      content_le := ?_
      content_outside := ?_
      content_splits := h.content_splits }
  · intro _
    rw [ht]
    exact Nat.lt_of_lt_of_le (h.tagStart_lt hne) ho
  · intro hs'
    rw [ht]
    rcases hs with hs | hs
    · exact h.started (hs ▸ hs')
    · rw [hs'] at hs
      cases hs
  · intro hs' i m hm hlt
    rw [ht] at hlt
    cases hl : l.state.stage with
    | outside => exact absurd hl hne
    | started => exact absurd hlt (Nat.not_lt_of_le (h.started hl i m hm))
    | opening => exact h.opening hl i m hm hlt
  · intro x hx
    exact ⟨(h.content_le x hx).1, Nat.le_trans (h.content_le x hx).2 ho⟩
  · intro x hx _
    rw [ht]
    exact h.content_outside x hx hne

/-- A `<` is read. -/
theorem start (h : l.Follows markers content?) (ho : l'.offset = l.offset + 1)
    (hs : l'.state.stage = .started) (ht : l'.tagStart = l.offset) :
    l'.Follows markers content? := by
  refine
    { position_le := ?_
      tagStart_lt := ?_
      started := ?_
      opening := ?_
      content_le := ?_
      content_outside := ?_
      content_splits := h.content_splits }
  · intro i m hm
    rw [ho]
    exact Nat.le_succ_of_le (h.position_le i m hm)
  · intro _
    rw [ho, ht]
    exact Nat.lt_succ_self _
  · intro _ i m hm
    rw [ht]
    exact h.position_le i m hm
  · intro hs'
    rw [hs] at hs'
    cases hs'
  · intro x hx
    rw [ho]
    exact ⟨(h.content_le x hx).1, Nat.le_succ_of_le (h.content_le x hx).2⟩
  · intro x hx _
    rw [ht]
    exact (h.content_le x hx).2

theorem reads {tag : Option Tag} (h : l.Follows markers content?) (hr : l.Reads l' tag)
    (ho : l'.offset = l.offset + 1) : l'.Follows markers content? := by
  have hle : l.offset ≤ l'.offset := ho ▸ Nat.le_succ _
  cases hr with
  | outside _ hs => exact h.outside hle hs
  | start _ hs ht => exact h.start ho hs ht
  | started hs hs' ht => exact h.inside hle ht (by simp [hs]) (.inl (hs'.trans hs.symm))
  | opening hs hs' ht => exact h.inside hle ht hs (.inr hs')
  | openTag _ hs => exact h.outside hle hs
  | closeTag _ hs => exact h.outside hle hs

theorem interrupt (h : l.Follows markers content?) : l.interrupt.Follows markers content? := by
  rcases l.state.stage_interrupted with hs | hs
  · exact h.outside (Nat.le_refl _) hs
  · by_cases hl : l.state.stage = .outside
    · exact h.outside (Nat.le_refl _) (hs.trans hl)
    · exact h.inside (Nat.le_refl _) rfl hl (.inl hs)

/-- A marker stands at the current place. -/
theorem push (h : l.Follows markers content?) (hm : m.position = l.offset)
    (hne : l.state.stage ≠ .started)
    (hb : l.state.stage = .opening → m.boundsWrapper = false) :
    l.Follows (markers.push m) content? := by
  refine
    { position_le := ?_
      tagStart_lt := h.tagStart_lt
      started := fun hs => absurd hs hne
      opening := ?_
      content_le := ?_
      content_outside := h.content_outside
      content_splits := ?_ }
  · intro i n hn
    rcases getElem?_push_eq_some hn with hn | ⟨-, rfl⟩
    · exact h.position_le i n hn
    · exact Nat.le_of_eq hm
  · intro hs i n hn hlt
    rcases getElem?_push_eq_some hn with hn | ⟨-, rfl⟩
    · exact h.opening hs i n hn hlt
    · exact hb hs
  · intro x hx
    rw [Array.size_push]
    exact ⟨Nat.le_succ_of_le (h.content_le x hx).1, (h.content_le x hx).2⟩
  · intro x hx i n hn
    rcases getElem?_push_eq_some hn with hn | ⟨rfl, rfl⟩
    · exact h.content_splits x hx i n hn
    · refine ⟨fun hi => absurd (h.content_le x hx).1 (Nat.not_le_of_lt hi), fun _ => ?_⟩
      rw [hm]
      exact (h.content_le x hx).2

theorem congr (h : l.Follows markers content?) (ha : Alike markers markers') :
    l.Follows markers' content? := by
  refine
    { position_le := fun i n hn => ?_
      tagStart_lt := h.tagStart_lt
      started := fun hs i n hn => ?_
      opening := fun hs i n hn hlt => ?_
      content_le := fun x hx => ha.size_eq ▸ h.content_le x hx
      content_outside := h.content_outside
      content_splits := fun x hx i n hn => ?_ }
  all_goals obtain ⟨m, hm, hp, hb, -⟩ := ha.marker i n hn
  · rw [hp]
    exact h.position_le i m hm
  · rw [hp]
    exact h.started hs i m hm
  · rw [hp] at hlt
    rw [hb]
    exact h.opening hs i m hm hlt
  · rw [hp]
    exact h.content_splits x hx i m hm

/-- The content marker stands at the current place. -/
theorem markContent (h : l.Follows markers none) (hs : l.state.stage = .outside) :
    l.Follows markers (some { marker := markers.size, offset := l.offset }) := by
  refine
    { position_le := h.position_le
      tagStart_lt := h.tagStart_lt
      started := h.started
      opening := h.opening
      content_le := ?_
      content_outside := fun x hx hne => absurd hs hne
      content_splits := ?_ }
  · intro x hx
    cases hx
    exact ⟨Nat.le_refl _, Nat.le_refl _⟩
  · intro x hx i m hm
    cases hx
    refine ⟨fun _ => h.position_le i m hm, fun hi => ?_⟩
    rw [Array.getElem?_eq_none hi] at hm
    cases hm

end TagLexer.Follows

/-! ## 2. The table -/

/-- The table of the tag reader is right, where the given markers are in front, the
given wrappers are open, and the content marker may have been met. -/
structure TagReader.Tracks (r : TagReader) (markers : Array (Marker ω δ))
    (opened : List (Option Nat)) (content? : Option Place) : Prop where
  follows : r.lexer.Follows markers content?
  /-- The element in whose start tag the reader stands. -/
  current : ∀ index, r.table.current = some index →
    r.lexer.state.stage = .opening ∧
      (∀ depth, (index, depth) ∉ r.table.pending.map OpenElement.key) ∧
      ∃ e : Element, r.table.elements[index]? = some e ∧ e.openStart = r.lexer.tagStart ∧
        e.containsContent = false
  pending : ∀ index depth, (index, depth) ∈ r.table.pending.map OpenElement.key →
    ∃ e : Element, r.table.elements[index]? = some e ∧
      e.Waits markers opened content? depth ∧ e.openEnd ≤ r.lexer.offset ∧
      (r.lexer.state.stage = .started → e.openEnd ≤ r.lexer.tagStart)
  /-- An element that is not waited for is closed. -/
  closed : ∀ (index : Nat) (e : Element), r.table.elements[index]? = some e →
    r.table.current = some index ∨
      (∃ depth, (index, depth) ∈ r.table.pending.map OpenElement.key) ∨
      e.Closed markers r.lexer.offset content?
  /-- An attribute marker stands in the start tag of its element. -/
  owner : ∀ (i : Nat) (m : Marker ω δ) (run : δ → AttributeRender ω Unit) (index : Nat),
    markers[i]? = some m → m.action = .attributes run index →
      ∃ e : Element, r.table.elements[index]? = some e ∧ e.openStart < m.position ∧
        (r.table.current = some index ∨ i < e.firstInnerMarker)

namespace TagReader.Tracks

variable {r : TagReader} {opened : List (Option Nat)} {m : Marker ω δ}

/-- The lexer goes on, and nothing happens to the elements. -/
theorem goOn (h : r.Tracks markers opened content?) {r' : TagReader}
    (hf : r'.lexer.Follows markers content?) (ho : r.lexer.offset ≤ r'.lexer.offset)
    (hcurrent : r'.table.current = r.table.current)
    (hpending : r'.table.pending.map OpenElement.key = r.table.pending.map OpenElement.key)
    (helements : r'.table.elements = r.table.elements)
    (hopening : r.table.current = none ∨ (r.lexer.state.stage = .opening →
      r'.lexer.state.stage = .opening ∧ r'.lexer.tagStart = r.lexer.tagStart))
    (hstarted : r'.lexer.state.stage = .started → r'.lexer.tagStart = r.lexer.offset ∨
      (r.lexer.state.stage = .started ∧ r'.lexer.tagStart = r.lexer.tagStart)) :
    r'.Tracks markers opened content? := by
  refine
    { follows := hf
      current := ?_
      pending := ?_
      closed := ?_
      owner := ?_ }
  · intro index hi
    rw [hcurrent] at hi
    obtain ⟨hs, hp, e, he, ht, hc⟩ := h.current index hi
    rcases hopening with hnone | hopening
    · rw [hi] at hnone
      cases hnone
    · obtain ⟨hs', ht'⟩ := hopening hs
      exact ⟨hs', hpending ▸ hp, e, helements ▸ he, ht.trans ht'.symm, hc⟩
  · intro index depth hi
    rw [hpending] at hi
    obtain ⟨e, he, hw, hle, ht⟩ := h.pending index depth hi
    refine ⟨e, helements ▸ he, hw, Nat.le_trans hle ho, fun hs => ?_⟩
    rcases hstarted hs with ht' | ⟨hs', ht'⟩
    · rw [ht']
      exact hle
    · rw [ht']
      exact ht hs'
  · intro index e he
    rw [helements] at he
    rw [hcurrent, hpending]
    rcases h.closed index e he with hi | hi | hi
    · exact .inl hi
    · exact .inr (.inl hi)
    · exact .inr (.inr (hi.mono ho))
  · rw [helements, hcurrent]
    exact h.owner

/-- A pending element is not changed by what is done to the current one. -/
theorem ne_current (h : r.Tracks markers opened content?) {index other depth : Nat}
    (hi : r.table.current = some index)
    (hp : (other, depth) ∈ r.table.pending.map OpenElement.key) : index ≠ other := by
  rintro rfl
  exact (h.current index hi).2.1 depth hp

/-- Once the start tag ends in which the reader stands, its end tag may be waited for. -/
theorem waits_of_current (h : r.Tracks markers opened content?)
    (hopened : openBefore markers markers.size = opened.filterMap id) {index : Nat}
    (hi : r.table.current = some index) {e : Element} (he : r.table.elements[index]? = some e) :
    (e.endOpen (r.lexer.offset + 1) markers.size).Waits markers opened content? opened.length := by
  obtain ⟨hs, -, e', he', ht, hc⟩ := h.current index hi
  rw [he] at he'
  cases he'
  have hlt : r.lexer.tagStart < r.lexer.offset := h.follows.tagStart_lt (by simp [hs])
  refine
    { start_lt := ?_
      inner_le := Nat.le_refl _
      inner_iff := ?_
      unmarked := fun i m hm hpos _ => h.follows.opening hs i m hm (ht ▸ hpos)
      inside := fun hc' => absurd hc' (by simp [Element.endOpen, hc])
      before := ?_
      depth_le := Nat.le_refl _
      balanced := ?_ }
  · show e.openStart < r.lexer.offset + 1
    rw [ht]
    exact Nat.lt_succ_of_lt hlt
  · intro i m hm
    obtain ⟨hlt', -⟩ := Array.getElem?_eq_some_iff.mp hm
    exact iff_of_true hlt' (Nat.lt_succ_of_le (h.follows.position_le i m hm))
  · intro _ x hx
    show x.offset ≤ e.openStart
    rw [ht]
    exact h.follows.content_outside x hx (by simp [hs])
  · rw [Nat.sub_self, List.drop_zero]
    exact hopened

/-- The start tag in which the reader stands ends, and its element is changed. -/
theorem endCurrent (h : r.Tracks markers opened content?) {index : Nat}
    (hi : r.table.current = some index) {r' : TagReader} {f : Element → Element}
    {k : List (Nat × Nat)} (hf : r'.lexer.Follows markers content?)
    (ho : r.lexer.offset ≤ r'.lexer.offset) (hs : r'.lexer.state.stage = .outside)
    (hcurrent : r'.table.current = none)
    (hpending : r'.table.pending.map OpenElement.key = r.table.pending.map OpenElement.key ++ k)
    (helements : r'.table.elements = r.table.elements.modify index f)
    (hstart : ∀ e, (f e).openStart = e.openStart)
    (hinner : ∀ e, (f e).firstInnerMarker = markers.size)
    (hnew : ∀ other depth, (other, depth) ∈ k → other = index ∧
      ∀ e, r.table.elements[index]? = some e →
        (f e).Waits markers opened content? depth ∧ (f e).openEnd ≤ r'.lexer.offset)
    (hclosed : ∀ e, r.table.elements[index]? = some e →
      (∃ depth, (index, depth) ∈ k) ∨ (f e).Closed markers r'.lexer.offset content?) :
    r'.Tracks markers opened content? := by
  have hns : r'.lexer.state.stage ≠ .started := by simp [hs]
  -- The other elements are left as they are.
  have hother : ∀ other, index ≠ other → r'.table.elements[other]? = r.table.elements[other]? := by
    intro other hne
    rw [helements, Array.getElem?_modify, if_neg hne]
  have hself : ∀ e, r.table.elements[index]? = some e → r'.table.elements[index]? = some (f e) := by
    intro e he
    rw [helements, Array.getElem?_modify, if_pos rfl, he]
    rfl
  refine
    { follows := hf
      current := ?_
      pending := ?_
      closed := ?_
      owner := ?_ }
  · intro other hi'
    rw [hcurrent] at hi'
    cases hi'
  · intro other depth hp
    rw [hpending] at hp
    rcases List.mem_append.mp hp with hp | hp
    · obtain ⟨e, he, hw, hle, -⟩ := h.pending other depth hp
      exact ⟨e, (hother other (h.ne_current hi hp)).trans he, hw, Nat.le_trans hle ho,
        fun hs' => absurd hs' hns⟩
    · obtain ⟨rfl, hw⟩ := hnew other depth hp
      obtain ⟨e, he, -⟩ := (h.current other hi).2.2
      exact ⟨f e, hself e he, (hw e he).1, (hw e he).2, fun hs' => absurd hs' hns⟩
  · intro other e he
    rw [hpending]
    by_cases hne : index = other
    · subst hne
      obtain ⟨e₀, he₀, -⟩ := (h.current index hi).2.2
      rw [hself e₀ he₀] at he
      cases he
      rcases hclosed e₀ he₀ with ⟨depth, hd⟩ | hc
      · exact .inr (.inl ⟨depth, List.mem_append_right _ hd⟩)
      · exact .inr (.inr hc)
    · rw [hother other hne] at he
      rcases h.closed other e he with hc | ⟨depth, hd⟩ | hc
      · rw [hi] at hc
        exact absurd (Option.some.inj hc) hne
      · exact .inr (.inl ⟨depth, List.mem_append_left _ hd⟩)
      · exact .inr (.inr (hc.mono ho))
  · intro i m run other hm ha
    obtain ⟨e, he, hpos, hc⟩ := h.owner i m run other hm ha
    by_cases hne : index = other
    · subst hne
      refine ⟨f e, hself e he, hstart e ▸ hpos, .inr ?_⟩
      rw [hinner]
      exact (Array.getElem?_eq_some_iff.mp hm).1
    · refine ⟨e, (hother other hne).trans he, hpos, .inr ?_⟩
      rcases hc with hc | hc
      · rw [hi] at hc
        exact absurd (Option.some.inj hc) hne
      · exact hc

/-- A start tag ends. -/
theorem openTag (h : r.Tracks markers opened content?)
    (hopened : openBefore markers markers.size = opened.filterMap id) {l' : TagLexer}
    (hf : l'.Follows markers content?) (ho : l'.offset = r.lexer.offset + 1)
    (hs : l'.state.stage = .outside) (name : TagName) (selfClosing : Bool) :
    { lexer := l'
      table := r.table.openTag { markers := markers.size, depth := opened.length } name selfClosing
        (r.lexer.offset + 1) : TagReader }.Tracks markers opened content? := by
  have hle : r.lexer.offset ≤ l'.offset := ho ▸ Nat.le_succ _
  have hns : l'.state.stage ≠ .started := by simp [hs]
  have hkeys := OpenElement.map_key_countOpening name r.table.pending
  unfold ElementTable.openTag
  cases hi : r.table.current with
  | none =>
    refine h.goOn hf hle hi.symm ?_ rfl (.inl hi) fun hs' => absurd hs' hns
    show List.map _ (if _ then _ else _) = _
    split
    · rfl
    · exact hkeys
  | some index =>
    cases hself : selfClosing || Markup.isVoid name with
    | true =>
      -- No end tag is waited for: the element is closed where its start tag ends.
      simp only [if_true]
      refine h.endCurrent (k := [])
        (f := fun e => (e.endOpen (r.lexer.offset + 1) markers.size).endClose (r.lexer.offset + 1)
          (r.lexer.offset + 1) markers.size)
        hi hf hle hs rfl (List.append_nil _).symm rfl (fun _ => rfl) (fun _ => rfl)
        (fun _ _ hmem => absurd hmem List.not_mem_nil) fun e he => .inr ?_
      have hclosed := (h.waits_of_current hopened hi he).close hopened (Nat.le_refl _)
        (Nat.le_refl _)
        (fun i m hm => Nat.le_succ_of_le (h.follows.position_le i m hm))
        (fun x hx => (h.follows.content_le x hx).imp_right Nat.le_succ_of_le)
      exact hclosed.mono (Nat.le_of_eq ho.symm)
    | false =>
      simp only [Bool.false_eq_true, if_false]
      refine h.endCurrent (k := [(index, opened.length)])
        (f := fun e => e.endOpen (r.lexer.offset + 1) markers.size)
        hi hf hle hs rfl ?_ rfl (fun _ => rfl) (fun _ => rfl) ?_
        fun e he => .inl ⟨opened.length, List.mem_singleton_self _⟩
      · rw [List.map_append, hkeys]
        rfl
      · intro other depth hmem
        obtain ⟨rfl, rfl⟩ := Prod.mk.inj (List.mem_singleton.mp hmem)
        exact ⟨rfl, fun e he => ⟨h.waits_of_current hopened hi he, Nat.le_of_eq ho.symm⟩⟩

/-- An end tag ends that crosses no wrapper. -/
theorem closeTag (h : r.Tracks markers opened content?)
    (hopened : openBefore markers markers.size = opened.filterMap id) {l' : TagLexer}
    (hf : l'.Follows markers content?) (ho : l'.offset = r.lexer.offset + 1)
    (hs : r.lexer.state.stage = .started) (hs' : l'.state.stage = .outside) {name : TagName}
    {table : ElementTable}
    (ht : r.table.closeTag { markers := markers.size, depth := opened.length } name
      r.lexer.tagStart (r.lexer.offset + 1) = (table, none)) :
    { lexer := l', table := table : TagReader }.Tracks markers opened content? := by
  have hle : r.lexer.offset ≤ l'.offset := ho ▸ Nat.le_succ _
  have hns : l'.state.stage ≠ .started := by simp [hs']
  -- The reader stands in an end tag, so there is no current element.
  have hnone : r.table.current = none := by
    cases hi : r.table.current with
    | none => rfl
    | some index => exact absurd ((h.current index hi).1.symm.trans hs) (by decide)
  obtain ⟨hcurrent, hpending, hcrossed, helem⟩ := ElementTable.closeTag_eq ht
  have hkeys := OpenElement.sublist_key_closeAll name opened.length r.table.pending
  refine
    { follows := hf
      current := ?_
      pending := ?_
      closed := ?_
      owner := ?_ }
  · intro index hi
    rw [hcurrent, hnone] at hi
    cases hi
  · intro index depth hp
    rw [hpending] at hp
    obtain ⟨e, he, hw, hend, -⟩ := h.pending index depth (hkeys.mem hp)
    -- A pending element that an end tag closes all the same is still waited for.
    rw [helem, he]
    split
    · exact ⟨_, rfl, hw.endClose _ _ _, Nat.le_trans hend hle, fun hs => absurd hs hns⟩
    · exact ⟨e, rfl, hw, Nat.le_trans hend hle, fun hs => absurd hs hns⟩
  · intro index e he
    rw [hpending]
    rw [helem] at he
    split at he
    -- An element that the end tag closes has been waited for at the depth of the end tag.
    · next hc =>
      obtain ⟨e₀, he₀, hw, -, hstart⟩ :=
        h.pending index opened.length (OpenElement.mem_key_of_mem_closed hc)
      rw [he₀] at he
      cases he
      have hlt := h.follows.tagStart_lt (by simp [hs])
      have hclosed := hw.close hopened (hstart hs) (Nat.le_succ_of_le (Nat.le_of_lt hlt))
        (h.follows.started hs) fun x hx =>
          ⟨(h.follows.content_le x hx).1, h.follows.content_outside x hx (by simp [hs])⟩
      exact .inr (.inr (hclosed.mono (Nat.le_of_eq ho.symm)))
    · next hc =>
      rcases h.closed index e he with hi | ⟨depth, hd⟩ | hi
      · rw [hnone] at hi
        cases hi
      · obtain ⟨p, hp, hkey⟩ := List.mem_map.mp hd
        obtain ⟨rfl, rfl⟩ := Prod.mk.inj hkey
        rcases OpenElement.key_mem_or_mem_closed _ _ hcrossed hp with hk | hk
        · exact .inr (.inl ⟨_, hk⟩)
        · exact absurd hk hc
      · exact .inr (.inr (hi.mono hle))
  · intro i m run index hm ha
    obtain ⟨e, he, hpos, hc⟩ := h.owner i m run index hm ha
    rw [helem, he, hcurrent]
    split
    · exact ⟨_, rfl, hpos, hc⟩
    · exact ⟨e, rfl, hpos, hc⟩

/-! ## 3. Bytes -/

/-- A byte is read that crosses no wrapper. -/
theorem step (h : r.Tracks markers opened content?)
    (hopened : openBefore markers markers.size = opened.filterMap id) {r' : TagReader}
    {byte : UInt8}
    (hr : r.step { markers := markers.size, depth := opened.length } byte = (r', none)) :
    r'.Tracks markers opened content? ∧ r'.offset = r.offset + 1 := by
  have hreads := r.lexer.reads_step byte
  have ho := r.lexer.offset_step byte
  unfold TagReader.step at hr
  simp only at hr
  generalize r.lexer.step byte = next at hreads ho hr
  obtain ⟨l', tag⟩ := next
  have hf := h.follows.reads hreads ho
  have hle : r.lexer.offset ≤ l'.offset := ho ▸ Nat.le_succ _
  cases hreads with
  | outside hne hs =>
    cases hr
    exact ⟨h.goOn hf hle rfl rfl rfl (.inr fun hs' => absurd hs' hne)
      fun hs' => absurd (hs'.symm.trans hs) (by decide), ho⟩
  | start hne hs ht =>
    cases hr
    exact ⟨h.goOn hf hle rfl rfl rfl (.inr fun hs' => absurd hs' hne) fun _ => .inl ht, ho⟩
  | started hs hs' ht =>
    cases hr
    exact ⟨h.goOn hf hle rfl rfl rfl (.inr fun hs₀ => absurd (hs₀.symm.trans hs) (by decide))
      fun _ => .inr ⟨hs, ht⟩, ho⟩
  | opening hne hs ht =>
    cases hr
    exact ⟨h.goOn hf hle rfl rfl rfl (.inr fun _ => ⟨hs, ht⟩)
      fun hs' => absurd (hs'.symm.trans hs) (by decide), ho⟩
  | openTag hs hs' =>
    cases hr
    exact ⟨h.openTag hopened hf ho hs' _ _, ho⟩
  | closeTag hs hs' =>
    obtain ⟨rfl, htag⟩ := Prod.mk.inj hr
    exact ⟨h.closeTag hopened hf ho hs hs' (Prod.ext rfl htag), ho⟩

theorem feed (h : r.Tracks markers opened content?)
    (hopened : openBefore markers markers.size = opened.filterMap id) {r' : TagReader}
    {bytes : List UInt8}
    (hr : r.feed { markers := markers.size, depth := opened.length } bytes = (r', none)) :
    r'.Tracks markers opened content? ∧ r'.offset = r.offset + bytes.length := by
  induction bytes generalizing r with
  | nil =>
    cases hr
    exact ⟨h, rfl⟩
  | cons byte bytes ih =>
    unfold TagReader.feed at hr
    split at hr
    · next next hstep =>
      obtain ⟨hnext, ho⟩ := h.step hopened hstep
      obtain ⟨hr', ho'⟩ := ih hnext hr
      refine ⟨hr', ?_⟩
      rw [ho', ho, List.length_cons]
      omega
    · cases hr

/-! ## 4. Markers -/

/-- A token stands at the current place. -/
theorem interrupt (h : r.Tracks markers opened content?) :
    r.interrupt.Tracks markers opened content? := by
  refine h.goOn h.follows.interrupt (Nat.le_refl _) rfl rfl rfl (.inr fun hs => ⟨?_, rfl⟩)
    fun hs => .inr ⟨?_, rfl⟩
  · exact r.lexer.state.stage_interrupted_eq_opening.mpr hs
  · rcases r.lexer.state.stage_interrupted with hs' | hs'
    · exact absurd (hs.symm.trans hs') (by decide)
    · exact hs'.symm.trans hs

/-- An attribute marker stands in the start tag being read. -/
theorem attach (h : r.Tracks markers opened content?) (hs : r.lexer.state.stage = .opening) :
    r.attachMarker.1.Tracks markers opened content? ∧
      r.attachMarker.1.table.current = some r.attachMarker.2 := by
  unfold TagReader.attachMarker ElementTable.attach
  cases hi : r.table.current with
  | some index => exact ⟨h, hi⟩
  | none =>
    -- The element is new, and those before it keep their indices.
    have hold : ∀ (i : Nat) (e : Element) {x : Element}, r.table.elements[i]? = some e →
        (r.table.elements.push x)[i]? = some e := by
      intro i e x he
      obtain ⟨hlt, -⟩ := Array.getElem?_eq_some_iff.mp he
      rw [Array.getElem?_push_lt hlt, ← he, Array.getElem?_eq_getElem hlt]
    refine And.intro
      { follows := h.follows
        current := ?_
        pending := ?_
        closed := ?_
        owner := ?_ } rfl
    · intro index hc
      cases hc
      refine ⟨hs, fun depth hp => ?_, _, Array.getElem?_push_size, rfl, rfl⟩
      obtain ⟨e, he, -⟩ := h.pending _ depth hp
      obtain ⟨hlt, -⟩ := Array.getElem?_eq_some_iff.mp he
      exact Nat.lt_irrefl _ hlt
    · intro index depth hp
      obtain ⟨e, he, hw⟩ := h.pending index depth hp
      exact ⟨e, hold index e he, hw⟩
    · intro index e he
      rcases getElem?_push_eq_some he with he | ⟨rfl, -⟩
      · rcases h.closed index e he with hc | hc
        · rw [hi] at hc
          cases hc
        · exact .inr hc
      · exact .inl rfl
    · intro i m run index hm ha
      obtain ⟨e, he, hpos, hc⟩ := h.owner i m run index hm ha
      rcases hc with hc | hc
      · rw [hi] at hc
        cases hc
      · exact ⟨e, hold index e he, hpos, .inr hc⟩

/-- A marker is put at the current place. -/
theorem push (h : r.Tracks markers opened content?) (hm : m.position = r.offset)
    (hne : r.lexer.state.stage ≠ .started)
    (hb : r.lexer.state.stage = .opening → m.boundsWrapper = false)
    (ha : ∀ run index, m.action = .attributes run index → r.table.current = some index) :
    r.Tracks (markers.push m) opened content? := by
  refine
    { follows := h.follows.push hm hne hb
      current := h.current
      pending := ?_
      closed := ?_
      owner := ?_ }
  · intro index depth hp
    obtain ⟨e, he, hw, hle, hs⟩ := h.pending index depth hp
    exact ⟨e, he, hw.push (hm.symm ▸ hle), hle, hs⟩
  · intro index e he
    rcases h.closed index e he with hc | hc | hc
    · exact .inl hc
    · exact .inr (.inl hc)
    · exact .inr (.inr (hc.push (Nat.le_of_eq hm.symm)))
  · intro i n run index hn hact
    rcases getElem?_push_eq_some hn with hn | ⟨-, rfl⟩
    · exact h.owner i n run index hn hact
    · have hi := ha run index hact
      obtain ⟨hs, -, e, he, ht, -⟩ := h.current index hi
      refine ⟨e, he, ?_, .inl hi⟩
      rw [ht, hm]
      exact h.follows.tagStart_lt (by simp [hs])

theorem congr (h : r.Tracks markers opened content?) (ha : Alike markers markers') :
    r.Tracks markers' opened content? := by
  refine
    { follows := h.follows.congr ha
      current := h.current
      pending := ?_
      closed := ?_
      owner := ?_ }
  · intro index depth hp
    obtain ⟨e, he, hw, hle⟩ := h.pending index depth hp
    exact ⟨e, he, hw.congr ha, hle⟩
  · intro index e he
    rcases h.closed index e he with hc | hc | hc
    · exact .inl hc
    · exact .inr (.inl hc)
    · exact .inr (.inr (hc.congr ha))
  · intro i n run index hn hact
    obtain ⟨m, hm, hp, -, hact'⟩ := ha.marker i n hn
    rw [hp]
    exact h.owner i m run index hm (hact' run index hact)

/-! ## 5. Wrappers and content -/

/-- Wrappers are opened or closed around which no element waits. -/
theorem reopen {opened' : List (Option Nat)} (h : r.Tracks markers opened content?)
    (hw : ∀ index depth, (index, depth) ∈ r.table.pending.map OpenElement.key →
      depth ≤ opened.length → depth ≤ opened'.length ∧
        opened'.drop (opened'.length - depth) = opened.drop (opened.length - depth)) :
    r.Tracks markers opened' content? := by
  refine { h with pending := fun index depth hp => ?_ }
  obtain ⟨e, he, hwaits, hle⟩ := h.pending index depth hp
  obtain ⟨hdepth, hdrop⟩ := hw index depth hp hwaits.depth_le
  exact ⟨e, he, hwaits.reopen hdepth hdrop, hle⟩

theorem openWrapper (h : r.Tracks markers opened content?) (x : Option Nat) :
    r.Tracks markers (x :: opened) content? := by
  refine h.reopen fun _ depth _ hle => ⟨Nat.le_succ_of_le hle, ?_⟩
  rw [List.length_cons, Nat.succ_sub hle, List.drop_succ_cons]

/-- A wrapper is closed that no element crosses. -/
theorem closeWrapper {x : Option Nat} (h : r.Tracks markers (x :: opened) content?)
    (hcross : r.crossedAt? opened.length = none) : r.Tracks markers opened content? := by
  refine h.reopen ?_
  intro index depth hp _
  obtain ⟨p, hmem, hkey⟩ := List.mem_map.mp hp
  obtain ⟨rfl, rfl⟩ := Prod.mk.inj hkey
  -- An element that was opened deeper would be crossed.
  have hle : p.depth ≤ opened.length := by
    have := List.find?_eq_none.mp (Option.map_eq_none_iff.mp hcross) p hmem
    simpa using this
  refine ⟨hle, ?_⟩
  rw [List.length_cons, Nat.succ_sub hle, List.drop_succ_cons]

/-- The content marker stands at the current place. -/
theorem markContent (h : r.Tracks markers opened none) (hs : r.lexer.state.stage = .outside) :
    r.markContent.Tracks markers opened
      (some { marker := markers.size, offset := r.offset }) := by
  have helem := r.table.getElem?_markContent
  refine
    { follows := h.follows.markContent hs
      current := ?_
      pending := ?_
      closed := ?_
      owner := ?_ }
  · intro index hi
    exact absurd ((h.current index hi).1.symm.trans hs) (by decide)
  · intro index depth hp
    obtain ⟨e, he, hw, hle, -⟩ := h.pending index depth hp
    have hmem : index ∈ r.table.pending.map OpenElement.element := by
      obtain ⟨p, hmem, hkey⟩ := List.mem_map.mp hp
      exact List.mem_map.mpr ⟨p, hmem, (Prod.mk.inj hkey).1⟩
    refine ⟨{ e with containsContent := true }, ?_, hw.markContent rfl hle, hle,
      fun hs' => absurd (hs'.symm.trans hs) (by decide)⟩
    show r.table.markContent.elements[index]? = _
    rw [helem, if_pos hmem, he]
    rfl
  · intro index e he
    replace he : r.table.markContent.elements[index]? = some e := he
    rw [helem] at he
    split at he
    · next hmem =>
      obtain ⟨p, hp, rfl⟩ := List.mem_map.mp hmem
      exact .inr (.inl ⟨p.depth, List.mem_map.mpr ⟨p, hp, rfl⟩⟩)
    · rcases h.closed index e he with hc | hc | hc
      · exact .inl hc
      · exact .inr (.inl hc)
      · exact .inr (.inr (hc.markContent rfl (Nat.le_refl _)))
  · intro i m run index hm ha
    obtain ⟨e, he, hpos, hc⟩ := h.owner i m run index hm ha
    show ∃ e, r.table.markContent.elements[index]? = some e ∧ _
    rw [helem, he]
    split
    · exact ⟨_, rfl, hpos, hc⟩
    · exact ⟨e, rfl, hpos, hc⟩

/-- No bytes have been read. -/
theorem initial : ({} : TagReader).Tracks (#[] : Array (Marker ω δ)) [] none := by
  have hnone : ∀ (i : Nat) {m : Marker ω δ}, (#[] : Array (Marker ω δ))[i]? ≠ some m := by
    simp
  have hfollows : ({} : TagLexer).Follows (#[] : Array (Marker ω δ)) none :=
    { position_le := fun i _ hm => absurd hm (hnone i)
      tagStart_lt := fun hs => absurd rfl hs
      started := fun _ i _ hm => absurd hm (hnone i)
      opening := fun _ i _ hm => absurd hm (hnone i)
      content_le := fun _ hx => by cases hx
      content_outside := fun _ hx => by cases hx
      content_splits := fun _ hx => by cases hx }
  exact
    { follows := hfollows
      current := fun _ hi => by cases hi
      pending := fun _ _ hp => absurd hp List.not_mem_nil
      closed := fun _ _ he => by simp at he
      owner := fun i _ _ _ hm => absurd hm (hnone i) }

end TagReader.Tracks

end HtmlTemplate
