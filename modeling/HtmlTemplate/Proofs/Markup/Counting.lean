import HtmlTemplate.Proofs.Markup.Pending

/-!
# Counting the elements that wait

Each element that waits for its end tag counts the elements of its name that are open in it. Start
tags raise the counts and end tags lower them, also an end tag that crosses a wrapper. So of two
elements of one name the one opened later has the lower count, and an end tag finds at most one
with the count zero.

What an element says of itself can be read off the bytes: with the last byte of each of its tags,
as many markers had been met as it says.

Results:
1. `Decreasing.countOpening`, `Decreasing.concat`, `Decreasing.closeAll`: the counts decrease, and
   tags keep that. `Decreasing.length_closed_le`: an end tag ends the wait of one element at most.
2. `ElementTable.openTag_of_none`, `openTag_of_closing`, `openTag_of_opening`: what a start tag does
   to the table. `ElementTable.getElem?_closeTag`: what an end tag does to the elements.
3. `Element.OpenedIn`, `Element.ClosedIn`: an element whose start tag has ended, and one that is
   closed. `OpenedIn.endOpen`, `OpenedIn.endClose`, `closedIn_endOpen`: tags make it so.
-/

namespace HtmlTemplate

open Markup

/-! ## 1. Counts -/

namespace OpenElement

variable {pending : List OpenElement} {name : TagName} {depth : Nat}

/-- Of the elements of one name, those opened later have been counted in fewer start tags. -/
def Decreasing (pending : List OpenElement) : Prop :=
  pending.Pairwise fun p q => p.name = q.name → q.nested < p.nested

theorem sublist_element_closeAll (name : TagName) (depth : Nat) (pending : List OpenElement) :
    ((closeAll name depth pending).pending.map element).Sublist (pending.map element) := by
  have hkeys := (sublist_key_closeAll name depth pending).map Prod.fst
  rwa [List.map_map, List.map_map] at hkeys

namespace Decreasing

/-- A start tag is counted in all elements of its name. -/
theorem countOpening (h : Decreasing pending) (name : TagName) :
    Decreasing (OpenElement.countOpening name pending) := by
  unfold Decreasing OpenElement.countOpening
  rw [List.pairwise_map]
  refine h.imp fun {p q} hlt => ?_
  by_cases hp : p.name = name
  · by_cases hq : q.name = name
    · rw [if_pos hp, if_pos hq]
      exact fun heq => Nat.succ_lt_succ (hlt heq)
    · rw [if_pos hp, if_neg hq]
      exact fun heq => absurd (heq.symm.trans hp) hq
  · by_cases hq : q.name = name
    · rw [if_neg hp, if_pos hq]
      exact fun heq => absurd (heq.trans hq) hp
    · rw [if_neg hp, if_neg hq]
      exact hlt

/-- An element that is opened now has been counted in those of its name. -/
theorem concat (h : Decreasing pending) (name : TagName) (index depth : Nat) :
    Decreasing (OpenElement.countOpening name pending ++
      [{ element := index, name := name, depth := depth }]) := by
  refine List.pairwise_append.mpr ⟨h.countOpening name, List.pairwise_singleton _ _, ?_⟩
  intro p hp q hq
  obtain rfl := List.mem_singleton.mp hq
  obtain ⟨p', hp', rfl⟩ := List.mem_map.mp hp
  split
  · exact fun _ => Nat.succ_pos _
  · next hname => exact fun heq => absurd heq hname

/-- Behind an element in which no other one is open, no other element of its name waits. -/
theorem ne_of_not_nested {p : OpenElement} {rest : List OpenElement} (h : Decreasing (p :: rest))
    (hname : ¬p.name ≠ name) (hnested : ¬0 < p.nested) : ∀ q ∈ rest, q.name ≠ name := by
  intro q hq heq
  have hlt := List.rel_of_pairwise_cons h hq ((Decidable.not_not.mp hname).trans heq.symm)
  exact hnested (Nat.zero_lt_of_lt hlt)

/-- Elements of other names stay as they are, and the others are counted down. -/
theorem mem_closeAll (h : Decreasing pending) {q : OpenElement}
    (hq : q ∈ (OpenElement.closeAll name depth pending).pending) :
    ∃ p ∈ pending, (p.name ≠ name ∧ q = p) ∨
      (p.name = name ∧ 0 < p.nested ∧ q = { p with nested := p.nested - 1 }) := by
  fun_induction OpenElement.closeAll name depth pending with
  | case1 => cases hq
  | case2 p rest hname effect ih =>
    rcases List.mem_cons.mp hq with rfl | hq
    · exact ⟨q, List.mem_cons_self, .inl ⟨hname, rfl⟩⟩
    · exact (ih h.of_cons hq).imp fun p' hp' => hp'.imp_left (List.mem_cons_of_mem p)
  | case3 p rest hname hnested effect ih =>
    rcases List.mem_cons.mp hq with rfl | hq
    · exact ⟨p, List.mem_cons_self, .inr ⟨Decidable.not_not.mp hname, hnested, rfl⟩⟩
    · exact (ih h.of_cons hq).imp fun p' hp' => hp'.imp_left (List.mem_cons_of_mem p)
  | case4 p rest hname hnested hdepth =>
    -- The elements behind a crossed one are not looked at, but none of them is of the name.
    exact ⟨q, List.mem_cons_of_mem p hq, .inl ⟨h.ne_of_not_nested hname hnested q hq, rfl⟩⟩
  | case5 p rest hname hnested hdepth effect ih =>
    exact (ih h.of_cons hq).imp fun p' hp' => hp'.imp_left (List.mem_cons_of_mem p)

/-- An end tag is counted in all elements of its name. -/
theorem closeAll (h : Decreasing pending) (name : TagName) (depth : Nat) :
    Decreasing (OpenElement.closeAll name depth pending).pending := by
  fun_induction OpenElement.closeAll name depth pending with
  | case1 => exact List.Pairwise.nil
  | case2 p rest hname effect ih =>
    refine List.pairwise_cons.mpr ⟨fun q hq heq => ?_, ih h.of_cons⟩
    obtain ⟨p', hp', ⟨-, rfl⟩ | ⟨hname', -, rfl⟩⟩ := mem_closeAll h.of_cons hq
    · exact List.rel_of_pairwise_cons h hp' heq
    · exact absurd (heq.trans hname') hname
  | case3 p rest hname hnested effect ih =>
    refine List.pairwise_cons.mpr ⟨fun q hq heq => ?_, ih h.of_cons⟩
    obtain ⟨p', hp', ⟨hname', rfl⟩ | ⟨-, hpos, rfl⟩⟩ := mem_closeAll h.of_cons hq
    · exact absurd (heq.symm.trans (Decidable.not_not.mp hname)) hname'
    · exact Nat.sub_lt_sub_right hpos (List.rel_of_pairwise_cons h hp' heq)
  | case4 p rest hname hnested hdepth => exact h.of_cons
  | case5 p rest hname hnested hdepth effect ih => exact ih h.of_cons

theorem closeAll_of_ne (h : ∀ q ∈ pending, q.name ≠ name) :
    OpenElement.closeAll name depth pending = { pending := pending } := by
  induction pending with
  | nil => rfl
  | cons p rest ih =>
    rw [OpenElement.closeAll, if_pos (h p List.mem_cons_self),
      ih fun q hq => h q (List.mem_cons_of_mem p hq)]

/-- An end tag ends the wait of at most one element, which it closes or crosses. -/
theorem length_closed_le (h : Decreasing pending) (name : TagName) (depth : Nat) :
    (OpenElement.closeAll name depth pending).closed.length +
      (OpenElement.closeAll name depth pending).crossed.toList.length ≤ 1 := by
  fun_induction OpenElement.closeAll name depth pending with
  | case1 => exact Nat.zero_le 1
  | case2 p rest hname effect ih | case3 p rest hname hnested effect ih => exact ih h.of_cons
  | case4 p rest hname hnested hdepth => exact Nat.le_refl 1
  | case5 p rest hname hnested hdepth effect ih =>
    have hrest : effect = { pending := rest } := closeAll_of_ne (h.ne_of_not_nested hname hnested)
    rw [hrest]
    exact Nat.le_refl 1

end Decreasing

end OpenElement

/-! ## 2. Tables -/

namespace ElementTable

variable {t : ElementTable} {around : Surroundings} {name : TagName} {selfClosing : Bool}
  {stop index : Nat}

theorem openTag_of_none (hi : t.current = none) :
    t.openTag around name selfClosing stop =
      { t with
        pending :=
          if selfClosing || isVoid name then t.pending
          else OpenElement.countOpening name t.pending } := by
  simp only [openTag, hi]

theorem openTag_of_closing (hi : t.current = some index)
    (hclosing : (selfClosing || isVoid name) = true) :
    t.openTag around name selfClosing stop =
      { current := none
        pending := t.pending
        elements := t.elements.modify index fun e =>
          (e.endOpen stop around.markers).endClose stop stop around.markers } := by
  simp only [openTag, hi, hclosing, if_true]

theorem openTag_of_opening (hi : t.current = some index)
    (hopening : (selfClosing || isVoid name) = false) :
    t.openTag around name selfClosing stop =
      { current := none
        pending := OpenElement.countOpening name t.pending ++
          [{ element := index, name := name, depth := around.depth }]
        elements := t.elements.modify index fun e => e.endOpen stop around.markers } := by
  simp only [openTag, hi, hopening, Bool.false_eq_true, if_false]

/-- Behind a start tag there is no current element. -/
theorem current_openTag (t : ElementTable) (around : Surroundings) (name : TagName)
    (selfClosing : Bool) (stop : Nat) :
    (t.openTag around name selfClosing stop).current = none := by
  cases hi : t.current with
  | none =>
    rw [openTag_of_none hi]
    exact hi
  | some index =>
    cases hclosing : selfClosing || isVoid name with
    | true => rw [openTag_of_closing hi hclosing]
    | false => rw [openTag_of_opening hi hclosing]

theorem map_element_openTag_of_none (around : Surroundings) (name : TagName) (selfClosing : Bool)
    (stop : Nat) (hi : t.current = none) :
    (t.openTag around name selfClosing stop).pending.map OpenElement.element =
      t.pending.map OpenElement.element := by
  rw [openTag_of_none hi]
  show List.map _ (if _ then _ else _) = _
  split
  · rfl
  · exact OpenElement.map_element_countOpening name t.pending

theorem map_element_openTag_of_opening (around : Surroundings) (stop : Nat)
    (hi : t.current = some index)
    (hopening : (selfClosing || isVoid name) = false) :
    (t.openTag around name selfClosing stop).pending.map OpenElement.element =
      t.pending.map OpenElement.element ++ [index] := by
  rw [openTag_of_opening hi hopening]
  show List.map _ (_ ++ _) = _
  rw [List.map_append, OpenElement.map_element_countOpening]
  rfl

/-- An end tag changes the elements that it closes. -/
theorem getElem?_closeTag (start i : Nat) :
    (t.closeTag around name start stop).1.elements[i]? =
      if i ∈ (OpenElement.closeAll name around.depth t.pending).closed then
        t.elements[i]?.map fun e => e.endClose start stop around.markers
      else t.elements[i]? :=
  getElem?_foldl_modify (f := fun e : Element => e.endClose start stop around.markers)
    (fun _ => rfl) _ _ i

end ElementTable

/-! ## 3. Elements -/

namespace Element

variable {e : Element} {fed : List Surroundings}

/-- The start tag has ended, where as many markers had been met as the element says. -/
structure OpenedIn (e : Element) (fed : List Surroundings) : Prop where
  start_lt : e.openStart < e.openEnd
  inner : (fed[e.openEnd - 1]?).map Surroundings.markers = some e.firstInnerMarker

/-- The end tag has been met, where as many markers had been met as the element says. If there is
none, it is as if it stood empty right behind the start tag. -/
structure ClosedIn (e : Element) (fed : List Surroundings) : Prop extends OpenedIn e fed where
  openEnd_le : e.openEnd ≤ e.closeStart
  ends : e.closeStart < e.closeEnd ∨ e.closeStart = e.openEnd ∧ e.closeEnd = e.openEnd
  next : (fed[e.closeEnd - 1]?).map Surroundings.markers = some e.nextMarker

theorem markers_append {i markers : Nat} (more : List Surroundings)
    (h : (fed[i]?).map Surroundings.markers = some markers) :
    ((fed ++ more)[i]?).map Surroundings.markers = some markers := by
  obtain ⟨around, haround, rfl⟩ := Option.map_eq_some_iff.mp h
  rw [List.getElem?_append_left (List.getElem?_eq_some_iff.mp haround).1, haround]
  rfl

theorem markers_concat {stop : Nat} (around : Surroundings) (h : fed.length + 1 = stop) :
    ((fed ++ [around])[stop - 1]?).map Surroundings.markers = some around.markers := by
  subst h
  simp

namespace OpenedIn

theorem append (h : e.OpenedIn fed) (more : List Surroundings) : e.OpenedIn (fed ++ more) :=
  ⟨h.start_lt, markers_append more h.inner⟩

theorem le_length (h : e.OpenedIn fed) : e.openEnd ≤ fed.length := by
  obtain ⟨around, haround, -⟩ := Option.map_eq_some_iff.mp h.inner
  have hlt := (List.getElem?_eq_some_iff.mp haround).1
  omega

/-- Only what a start tag says of the element matters. -/
theorem congr {e' : Element} (h : e.OpenedIn fed) (hstart : e'.openStart = e.openStart)
    (hend : e'.openEnd = e.openEnd) (hinner : e'.firstInnerMarker = e.firstInnerMarker) :
    e'.OpenedIn fed := by
  refine ⟨?_, ?_⟩
  · rw [hstart, hend]
    exact h.start_lt
  · rw [hend, hinner]
    exact h.inner

theorem endOpen {around : Surroundings} {stop : Nat} (hstop : fed.length + 1 = stop)
    (h : e.openStart < stop) : (e.endOpen stop around.markers).OpenedIn (fed ++ [around]) :=
  ⟨h, markers_concat around hstop⟩

theorem endClose {around : Surroundings} {start stop : Nat} (h : e.OpenedIn fed)
    (hstop : fed.length + 1 = stop) (hstart : e.openEnd ≤ start) (hlt : start < stop) :
    (e.endClose start stop around.markers).ClosedIn (fed ++ [around]) :=
  { h.append [around] with
    openEnd_le := hstart
    ends := .inl hlt
    next := markers_concat around hstop }

end OpenedIn

theorem ClosedIn.append (h : e.ClosedIn fed) (more : List Surroundings) :
    e.ClosedIn (fed ++ more) :=
  { h.toOpenedIn.append more with
    openEnd_le := h.openEnd_le
    ends := h.ends
    next := markers_append more h.next }

/-- A start tag that closes its element itself. -/
theorem closedIn_endOpen {around : Surroundings} {stop : Nat} (hstop : fed.length + 1 = stop)
    (h : e.openStart < stop) :
    ((e.endOpen stop around.markers).endClose stop stop around.markers).ClosedIn
      (fed ++ [around]) :=
  { start_lt := h
    inner := markers_concat around hstop
    openEnd_le := Nat.le_refl _
    ends := .inr ⟨rfl, rfl⟩
    next := markers_concat around hstop }

end Element

end HtmlTemplate
