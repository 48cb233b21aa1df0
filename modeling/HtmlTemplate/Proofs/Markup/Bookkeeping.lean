import HtmlTemplate.Proofs.Markup.Soundness

/-!
# The books of a tag reader

A tag reader is called in any order: bytes are fed to it, markers interrupt it and are attached to
start tags, the content marker is put, and wrapper depths are checked. Some of these calls fail, and
more may follow. Whatever was called before, the table of elements and the list of those that wait
for their end tags fit each other, and what the reader remembers of raw text fits the name of the
element. While no call has failed, all elements that the reader gives away in the end are closed.

Results:
1. `TagReader.perform`, `ReaderRun.Permits`: what a reader may be asked for, and when.
2. `ReaderRun.kept_next`, `ReaderRun.kept_after`: what one call keeps, and any sequence of calls.
3. `bookkeeping_of_permits`: what holds behind any calls.
-/

namespace HtmlTemplate

/-! ## 1. Calls -/

/-- What a reader may be asked for. -/
inductive ReaderCall where
  | feed (around : Surroundings) (bytes : List UInt8)
  /-- Bytes for which there is room, and one behind them for which there is none. -/
  | feedToLimit (around : Surroundings) (bytes : List UInt8)
  | interrupt
  | attachMarker
  | markContent
  | checkDepth (depth : Nat)

/-- What had been compiled at each of the bytes that a call has read. -/
def ReaderCall.surroundings (count : Nat) : ReaderCall → List Surroundings
  | feed around _ | feedToLimit around _ => List.replicate count around
  | interrupt | attachMarker | markContent | checkDepth _ => []

namespace TagReader

/-- The reader after a call, and whether the call fails. -/
def perform (r : TagReader) : ReaderCall → TagReader × Bool
  | .feed around bytes => ((r.feed around bytes).1, (r.feed around bytes).2.isSome)
  | .feedToLimit around bytes => ((r.feed around bytes).1, true)
  | .interrupt => (r.interrupt, false)
  | .attachMarker => (r.attachMarker.1, false)
  | .markContent => (r.markContent, false)
  | .checkDepth depth => (r, (r.crossedAt? depth).isSome)

/-- Attribute markers are attached in start tags only. -/
def Permits (r : TagReader) : ReaderCall → Prop
  | .attachMarker => r.inStartTag = true
  | .feed _ _ | .feedToLimit _ _ | .interrupt | .markContent | .checkDepth _ => True

instance (r : TagReader) (call : ReaderCall) : Decidable (r.Permits call) :=
  match call with
  | .attachMarker => inferInstanceAs (Decidable (_ = true))
  | .feed _ _ | .feedToLimit _ _ | .interrupt | .markContent | .checkDepth _ => .isTrue trivial

end TagReader

/-- A reader behind some calls. -/
structure ReaderRun where
  reader : TagReader := {}
  /-- What had been compiled at each byte. -/
  fed : List Surroundings := []
  /-- Whether a call has failed. -/
  failed : Bool := false

namespace ReaderRun

/-- One call more, also behind one that has failed. -/
def next (run : ReaderRun) (call : ReaderCall) : ReaderRun :=
  let (reader, fails) := run.reader.perform call
  { reader := reader
    fed := run.fed ++ call.surroundings (reader.offset - run.reader.offset)
    failed := run.failed || fails }

def after (run : ReaderRun) (calls : List ReaderCall) : ReaderRun := calls.foldl next run

/-- Each of the calls is permitted where it is made. -/
def Permits (run : ReaderRun) : List ReaderCall → Prop
  | [] => True
  | call :: calls => run.reader.Permits call ∧ (run.next call).Permits calls

instance decidablePermits (run : ReaderRun) : (calls : List ReaderCall) →
    Decidable (run.Permits calls)
  | [] => .isTrue trivial
  | call :: calls =>
    have := (run.next call).decidablePermits calls
    inferInstanceAs (Decidable (run.reader.Permits call ∧ (run.next call).Permits calls))

/-! ## 2. What calls keep -/

/-- The books fit the bytes that have been read, and no element is lost if no call has failed. -/
structure Kept (run : ReaderRun) : Prop where
  sound : run.reader.Sound run.fed
  complete : run.failed = false → run.reader.Complete run.fed

variable {run : ReaderRun}

theorem kept_start : ({} : ReaderRun).Kept := by
  have hnone : ∀ met, ({} : TagLexer).state ≠ .rawText met := fun met => by simp
  refine ⟨?_, fun _ index e he => by simp at he⟩
  exact
    { tagStart_lt := fun hs => absurd rfl hs
      increasing := List.Pairwise.nil
      start_lt := fun start hmem => absurd hmem List.not_mem_nil
      start_lt_tagStart := fun hs => absurd rfl hs
      current := fun index hi => by cases hi
      listed := List.Pairwise.nil
      opened := fun index hmem => absurd hmem List.not_mem_nil
      decreasing := List.Pairwise.nil
      length_fed := rfl
      withinName := TagLexer.withinName_of_ne hnone }

/-- A call leads to books that fit the bytes that it has read. -/
theorem Kept.of_read (h : run.Kept) {call : ReaderCall} {count : Nat}
    (hoffset : (run.reader.perform call).1.offset = run.reader.offset + count)
    (hsound : (run.reader.perform call).1.Sound (run.fed ++ call.surroundings count))
    (hcomplete : (run.reader.perform call).2 = false → run.reader.Complete run.fed →
      (run.reader.perform call).1.Complete (run.fed ++ call.surroundings count)) :
    (run.next call).Kept := by
  have hfed : (run.next call).fed = run.fed ++ call.surroundings count := by
    show run.fed ++ call.surroundings ((run.reader.perform call).1.offset - run.reader.offset) = _
    rw [hoffset, Nat.add_sub_cancel_left]
  refine ⟨hfed ▸ hsound, fun hfailed => hfed ▸ ?_⟩
  obtain ⟨hbefore, hfails⟩ := Bool.or_eq_false_iff.mp hfailed
  exact hcomplete hfails (h.complete hbefore)

/-- A call that reads no bytes. -/
theorem Kept.of_unread (h : run.Kept) {call : ReaderCall}
    (hunread : ∀ count, call.surroundings count = [])
    (hoffset : (run.reader.perform call).1.offset = run.reader.offset)
    (hsound : (run.reader.perform call).1.Sound run.fed)
    (hcomplete : run.reader.Complete run.fed → (run.reader.perform call).1.Complete run.fed) :
    (run.next call).Kept := by
  have hfed : run.fed ++ call.surroundings 0 = run.fed := by rw [hunread, List.append_nil]
  exact h.of_read hoffset (hfed.symm ▸ hsound) fun _ hbefore => hfed.symm ▸ hcomplete hbefore

theorem kept_next (h : run.Kept) {call : ReaderCall} (hpermits : run.reader.Permits call) :
    (run.next call).Kept := by
  cases call with
  | feed around bytes =>
    obtain ⟨count, hoffset, hsound, hcomplete⟩ := h.sound.feed around bytes
    refine h.of_read hoffset hsound fun hfails hbefore => hcomplete ?_ hbefore
    exact Option.isNone_iff_eq_none.mp (Option.isSome_eq_false_iff.mp hfails)
  | feedToLimit around bytes =>
    obtain ⟨count, hoffset, hsound, -⟩ := h.sound.feed around bytes
    exact h.of_read hoffset hsound fun hfails => absurd hfails (by simp [TagReader.perform])
  | interrupt => exact h.of_unread (fun _ => rfl) rfl h.sound.interrupt .interrupt
  | attachMarker =>
    exact h.of_unread (fun _ => rfl) rfl (h.sound.attachMarker hpermits) .attachMarker
  | markContent => exact h.of_unread (fun _ => rfl) rfl h.sound.markContent .markContent
  | checkDepth depth => exact h.of_unread (fun _ => rfl) rfl h.sound id

theorem kept_after (h : run.Kept) (calls : List ReaderCall) (hpermits : run.Permits calls) :
    (run.after calls).Kept := by
  induction calls generalizing run with
  | nil => exact h
  | cons call calls ih => exact ih (kept_next h hpermits.1) hpermits.2

/-! ## 3. Any calls -/

/-- What holds of a reader behind any calls. -/
structure Bookkept (run : ReaderRun) : Prop where
  length_fed : run.fed.length = run.reader.offset
  /-- No entry leads out of the table, and no match out of the name of a script or style. -/
  pending_lt : ∀ p ∈ run.reader.table.pending, p.element < run.reader.table.elements.size
  current_lt : ∀ index, run.reader.table.current = some index →
    index < run.reader.table.elements.size
  met_le : ∀ met, run.reader.lexer.state = .rawText met →
    met ≤ run.reader.lexer.rawName.size + 2
  /-- A marker is attached to an element of the table, which is that of the tag being read. -/
  attached : ∃ e : Element,
    run.reader.attachMarker.1.table.elements[run.reader.attachMarker.2]? = some e ∧
      e.openStart = run.reader.lexer.tagStart
  starts_increasing : run.reader.table.starts.Pairwise (· < ·)
  /-- The entries are for different elements, whose start tags have ended. -/
  pending_nodup : (run.reader.table.pending.map OpenElement.element).Nodup
  pending_opened : ∀ p ∈ run.reader.table.pending, ∃ e : Element,
    run.reader.table.elements[p.element]? = some e ∧ e.OpenedIn run.fed
  nested_decreasing : run.reader.table.pending.Pairwise fun p q =>
    p.name = q.name → q.nested < p.nested
  /-- An end tag ends the wait of one element at most. -/
  closes_one : ∀ name depth,
    (OpenElement.closeAll name depth run.reader.table.pending).closed.length +
      (OpenElement.closeAll name depth run.reader.table.pending).crossed.toList.length ≤ 1
  current_in_tag : ∀ index, run.reader.table.current = some index →
    run.reader.inStartTag = true ∨ run.reader.lexer.state.inValue = true
  finished : run.failed = false → ∀ elements, run.reader.finish = .ok elements →
    ∀ e ∈ elements, e.ClosedIn run.fed

/-- Once the reader gives the table away, nothing waits in it. -/
theorem Kept.closed_of_finish (h : run.Kept) (hfailed : run.failed = false)
    {elements : Array Element} (hfinish : run.reader.finish = .ok elements) :
    ∀ e ∈ elements, e.ClosedIn run.fed := by
  unfold TagReader.finish at hfinish
  split at hfinish
  · cases hfinish
  · next hunclosed =>
    cases hfinish
    intro e hmem
    obtain ⟨index, he⟩ := Array.getElem?_of_mem hmem
    unfold ElementTable.unclosed? at hunclosed
    split at hunclosed
    · cases hunclosed
    · next hpending =>
      rcases h.complete hfailed index e he with hi | hi | hclosed
      · have hinside := TagReader.insideTag_of_stage (h.sound.current index hi).1
        simp [hinside, hi] at hunclosed
      · rw [hpending] at hi
        cases hi
      · exact hclosed

theorem Kept.bookkept (h : run.Kept) : run.Bookkept := by
  have hopened : ∀ p ∈ run.reader.table.pending, ∃ e : Element,
      run.reader.table.elements[p.element]? = some e ∧ e.OpenedIn run.fed := by
    intro p hp
    obtain ⟨e, he, hopened, -⟩ := h.sound.opened p.element (List.mem_map_of_mem hp)
    exact ⟨e, he, hopened⟩
  refine
    { length_fed := h.sound.length_fed
      pending_lt := fun p hp => ?_
      current_lt := fun index hi => ?_
      met_le := h.sound.withinName
      attached := h.sound.exists_attached
      starts_increasing := h.sound.increasing
      pending_nodup := ?_
      pending_opened := hopened
      nested_decreasing := h.sound.decreasing
      closes_one := h.sound.decreasing.length_closed_le
      current_in_tag := fun index hi => ?_
      finished := fun hfailed _ => h.closed_of_finish hfailed }
  · obtain ⟨e, he, -⟩ := hopened p hp
    exact (Array.getElem?_eq_some_iff.mp he).1
  · obtain ⟨e, he, -⟩ := h.sound.exists_of_current hi
    exact (Array.getElem?_eq_some_iff.mp he).1
  · exact h.sound.increasing_pending.imp Nat.ne_of_lt
  · exact TagReader.inStartTag_or_inValue_of_stage (h.sound.current index hi).1

end ReaderRun

/-- Whatever a reader is asked for, and whatever of that fails, its books fit together. While
nothing has failed, all elements of a table that it gives away are closed. -/
theorem bookkeeping_of_permits (calls : List ReaderCall)
    (h : ({} : ReaderRun).Permits calls) : (({} : ReaderRun).after calls).Bookkept :=
  (ReaderRun.kept_after ReaderRun.kept_start calls h).bookkept

/-- The calls for `<a ${}><b ${}>x</b></a>` up to `</b>`. -/
def nestedCalls : List ReaderCall :=
  [.feed { markers := 0, depth := 0 } "<a ".toUTF8.data.toList, .interrupt, .attachMarker,
   .feed { markers := 1, depth := 0 } "><b ".toUTF8.data.toList, .interrupt, .attachMarker,
   .feed { markers := 2, depth := 0 } ">x</b>".toUTF8.data.toList]

/-- An end tag at another wrapper depth, and calls behind the one that fails. -/
def crossedCalls : List ReaderCall :=
  nestedCalls ++
  [.feed { markers := 2, depth := 1 } "</a>".toUTF8.data.toList, .checkDepth 0, .markContent,
   .feed { markers := 2, depth := 0 } "</b><i>".toUTF8.data.toList]

/-- The end tag that goes with the first start tag. -/
def closedCalls : List ReaderCall :=
  nestedCalls ++ [.feed { markers := 2, depth := 0 } "</a>".toUTF8.data.toList]

/-- The books fit together behind a call that has failed, and both elements are closed if none
has. -/
theorem bookkeeping_of_crossed :
    (({} : ReaderRun).after crossedCalls).failed = true ∧
    (({} : ReaderRun).after crossedCalls).Bookkept ∧
    ∃ elements, (({} : ReaderRun).after closedCalls).reader.finish = .ok elements ∧
      elements.size = 2 ∧ ∀ e ∈ elements, e.ClosedIn (({} : ReaderRun).after closedCalls).fed := by
  have hfinish : ∃ elements, (({} : ReaderRun).after closedCalls).reader.finish = .ok elements ∧
      elements.size = 2 := ⟨_, rfl, by decide +kernel⟩
  obtain ⟨elements, hfinish, hsize⟩ := hfinish
  exact ⟨by decide +kernel, bookkeeping_of_permits crossedCalls (by decide +kernel), elements,
    hfinish, hsize, (bookkeeping_of_permits closedCalls (by decide +kernel)).finished
      (by decide +kernel) elements hfinish⟩

end HtmlTemplate
