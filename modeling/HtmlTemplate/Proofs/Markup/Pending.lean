import HtmlTemplate.Markup.TagReader

/-!
# Pending elements

What the operations on an element table do to the elements that wait for their
end tags. Where one stands among the wrappers depends on its index and on the wrapper
depth at its start tag; which end tag belongs to it, on its name and on the start
tags of that name that are counted in it.

Results:
1. `map_key_countOpening`: counting start tags leaves the same elements pending.
2. `sublist_key_closeAll`, `key_mem_or_mem_closed`, `mem_key_of_mem_closed`: an
   end tag closes some pending elements, all opened at its own depth, and leaves
   the others pending. `mem_pending_closeAll`, `exists_of_mem_closed` and
   `exists_of_crossed` tell the names and the counts of those that it leaves, closes and
   crosses.
3. `closeTag_eq`, `getElem?_markContent`: the elements afterwards.
4. `ElementTable.starts`: the order of the elements, which bytes do not change.
-/

namespace HtmlTemplate

namespace OpenElement

/-- The index of a pending element and the wrapper depth at its start tag. -/
def key (p : OpenElement) : Nat × Nat := (p.element, p.depth)

/-! ## 1. Start tags -/

theorem map_key_countOpening (name : TagName) (pending : List OpenElement) :
    (countOpening name pending).map key = pending.map key := by
  unfold countOpening
  rw [List.map_map]
  refine List.map_congr_left ?_
  intro p _
  simp only [Function.comp_apply]
  split <;> rfl

theorem map_element_countOpening (name : TagName) (pending : List OpenElement) :
    (countOpening name pending).map element = pending.map element := by
  have hkeys := congrArg (List.map Prod.fst) (map_key_countOpening name pending)
  rwa [List.map_map, List.map_map] at hkeys

/-! ## 2. End tags -/

variable (name : TagName) (depth : Nat)

theorem sublist_key_closeAll (pending : List OpenElement) :
    ((closeAll name depth pending).pending.map key).Sublist (pending.map key) := by
  fun_induction closeAll name depth pending with
  | case1 => exact List.Sublist.refl _
  | case2 p rest hname effect ih => exact ih.cons_cons _
  | case3 p rest hname hnested effect ih => exact ih.cons_cons _
  | case4 p rest hname hnested hdepth => exact List.sublist_cons_self _ _
  | case5 p rest hname hnested hdepth effect ih => exact ih.cons _

/-- If no element is crossed, each one is closed or still pending. -/
theorem key_mem_or_mem_closed {pending : List OpenElement}
    (h : (closeAll name depth pending).crossed = none) {p : OpenElement} (hp : p ∈ pending) :
    p.key ∈ (closeAll name depth pending).pending.map key ∨
      p.element ∈ (closeAll name depth pending).closed := by
  fun_induction closeAll name depth pending with
  | case1 => simp at hp
  | case2 q rest hname effect ih | case3 q rest hname hnested effect ih =>
    rcases List.mem_cons.mp hp with rfl | hp
    · exact .inl List.mem_cons_self
    · exact (ih h hp).imp_left (List.mem_cons_of_mem _)
  -- An element of another depth would be crossed.
  | case4 q rest hname hnested hdepth => cases h
  | case5 q rest hname hnested hdepth effect ih =>
    rcases List.mem_cons.mp hp with rfl | hp
    · exact .inr List.mem_cons_self
    · exact (ih h hp).imp_right (List.mem_cons_of_mem _)

variable {name depth}

/-- What an end tag leaves pending has another name, or one element less in it. -/
theorem mem_pending_closeAll {pending : List OpenElement}
    (h : (closeAll name depth pending).crossed = none) {q : OpenElement}
    (hq : q ∈ (closeAll name depth pending).pending) :
    ∃ p ∈ pending, (p.name ≠ name ∧ q = p) ∨
      (p.name = name ∧ 0 < p.nested ∧ q = { p with nested := p.nested - 1 }) := by
  fun_induction closeAll name depth pending with
  | case1 => simp at hq
  | case2 p rest hname effect ih =>
    rcases List.mem_cons.mp hq with rfl | hq
    · exact ⟨q, List.mem_cons_self, .inl ⟨hname, rfl⟩⟩
    · exact (ih h hq).imp fun p' hp' => hp'.imp_left (List.mem_cons_of_mem p)
  | case3 p rest hname hnested effect ih =>
    rcases List.mem_cons.mp hq with rfl | hq
    · exact ⟨p, List.mem_cons_self, .inr ⟨Decidable.not_not.mp hname, hnested, rfl⟩⟩
    · exact (ih h hq).imp fun p' hp' => hp'.imp_left (List.mem_cons_of_mem p)
  | case4 p rest hname hnested hdepth => cases h
  | case5 p rest hname hnested hdepth effect ih =>
    exact (ih h hq).imp fun p' hp' => hp'.imp_left (List.mem_cons_of_mem p)

/-- An end tag closes an element of its name and depth in which no other one is open. -/
theorem exists_of_mem_closed {pending : List OpenElement} {index : Nat}
    (h : index ∈ (closeAll name depth pending).closed) :
    ∃ p ∈ pending, p.element = index ∧ p.name = name ∧ p.nested = 0 ∧ p.depth = depth := by
  fun_induction closeAll name depth pending with
  | case1 | case4 => simp at h
  | case2 p rest hname effect ih | case3 p rest hname hnested effect ih =>
    exact (ih h).imp fun p' hp' => hp'.imp_left (List.mem_cons_of_mem p)
  | case5 p rest hname hnested hdepth effect ih =>
    rcases List.mem_cons.mp h with rfl | h
    · exact ⟨p, List.mem_cons_self, rfl, Decidable.not_not.mp hname,
        Nat.eq_zero_of_not_pos hnested, Decidable.not_not.mp hdepth⟩
    · exact (ih h).imp fun p' hp' => hp'.imp_left (List.mem_cons_of_mem p)

/-- An element that is closed has been pending since the same depth. -/
theorem mem_key_of_mem_closed {pending : List OpenElement} {index : Nat}
    (h : index ∈ (closeAll name depth pending).closed) : (index, depth) ∈ pending.map key := by
  obtain ⟨p, hp, rfl, -, -, rfl⟩ := exists_of_mem_closed h
  exact List.mem_map_of_mem hp

/-- An element that is crossed is of the name, but of another depth. -/
theorem exists_of_crossed {pending : List OpenElement} {index : Nat}
    (h : (closeAll name depth pending).crossed = some index) :
    ∃ p ∈ pending, p.element = index ∧ p.name = name ∧ p.nested = 0 ∧ p.depth ≠ depth := by
  fun_induction closeAll name depth pending with
  | case1 => cases h
  | case4 p rest hname hnested hdepth =>
    cases h
    exact ⟨p, List.mem_cons_self, rfl, Decidable.not_not.mp hname,
      Nat.eq_zero_of_not_pos hnested, hdepth⟩
  | case2 p rest hname effect ih | case3 p rest hname hnested effect ih
  | case5 p rest hname hnested hdepth effect ih =>
    exact (ih h).imp fun p' hp' => hp'.imp_left (List.mem_cons_of_mem p)

end OpenElement

/-! ## 3. Elements -/

/-- The same change may be made several times to an entry. -/
theorem getElem?_foldl_modify {α : Type} {f : α → α} (hf : ∀ x, f (f x) = f x) (indices : List Nat)
    (xs : Array α) (i : Nat) :
    (indices.foldl (fun xs index => xs.modify index f) xs)[i]? =
      if i ∈ indices then xs[i]?.map f else xs[i]? := by
  induction indices generalizing xs with
  | nil => simp
  | cons index rest ih =>
    rw [List.foldl_cons, ih, Array.getElem?_modify]
    by_cases hi : index = i
    · subst hi
      cases xs[index]? <;> simp [hf]
    · have hne : i ≠ index := fun h => hi h.symm
      simp [hi, hne]

namespace ElementTable

theorem getElem?_markContent (t : ElementTable) (i : Nat) :
    t.markContent.elements[i]? =
      if i ∈ t.pending.map OpenElement.element then
        t.elements[i]?.map fun e => { e with containsContent := true }
      else t.elements[i]? := by
  have h := getElem?_foldl_modify (f := fun e : Element => { e with containsContent := true })
    (fun _ => rfl) (t.pending.map OpenElement.element) t.elements i
  rwa [List.foldl_map] at h

/-- An end tag that crosses no wrapper. -/
theorem closeTag_eq {t t' : ElementTable} {around : Surroundings} {name : TagName}
    {start stop : Nat} (h : t.closeTag around name start stop = (t', none)) :
    t'.current = t.current ∧
      t'.pending = (OpenElement.closeAll name around.depth t.pending).pending ∧
      (OpenElement.closeAll name around.depth t.pending).crossed = none ∧
      ∀ i, t'.elements[i]? =
        if i ∈ (OpenElement.closeAll name around.depth t.pending).closed then
          t.elements[i]?.map fun e => e.endClose start stop around.markers
        else t.elements[i]? := by
  obtain ⟨rfl, hcrossed⟩ := Prod.mk.inj h
  exact ⟨rfl, rfl, Option.map_eq_none_iff.mp hcrossed,
    getElem?_foldl_modify (f := fun e : Element => e.endClose start stop around.markers)
      (fun _ => rfl) _ _⟩

end ElementTable

/-! ## 4. The order of the elements -/

/-- A change of an element that leaves its start tag where it is. -/
theorem map_openStart_modify {f : Element → Element} (hf : ∀ e, (f e).openStart = e.openStart)
    (elements : Array Element) (i : Nat) :
    (elements.modify i f).toList.map Element.openStart =
      elements.toList.map Element.openStart := by
  refine List.ext_getElem? fun j => ?_
  simp only [List.getElem?_map, Array.getElem?_toList, Array.getElem?_modify]
  split
  · cases elements[j]? <;> simp [hf]
  · rfl

theorem map_openStart_foldl_modify {f : Element → Element}
    (hf : ∀ e, (f e).openStart = e.openStart) (indices : List Nat) (elements : Array Element) :
    (indices.foldl (fun elements i => elements.modify i f) elements).toList.map
      Element.openStart = elements.toList.map Element.openStart := by
  induction indices generalizing elements with
  | nil => rfl
  | cons i indices ih => rw [List.foldl_cons, ih, map_openStart_modify hf]

namespace ElementTable

/-- The offsets of the start tags, in the order of the table. -/
def starts (t : ElementTable) : List Nat := t.elements.toList.map Element.openStart

theorem starts_markContent (t : ElementTable) : t.markContent.starts = t.starts := by
  have h := map_openStart_foldl_modify
    (f := fun e : Element => { e with containsContent := true }) (fun _ => rfl)
    (t.pending.map OpenElement.element) t.elements
  rwa [List.foldl_map] at h

theorem starts_addTag (t : ElementTable) (around : Surroundings) (tag : Tag) :
    (t.addTag around tag).1.starts = t.starts := by
  cases tag with
  | closing name start stop =>
    exact map_openStart_foldl_modify (f := fun e => e.endClose start stop around.markers)
      (fun _ => rfl) _ _
  | opening name selfClosing stop =>
    show (t.openTag around name selfClosing stop).starts = t.starts
    unfold openTag
    cases t.current with
    | none => rfl
    | some index =>
      simp only
      split
      · exact map_openStart_modify (f := fun e => (e.endOpen stop around.markers).endClose stop
          stop around.markers) (fun _ => rfl) _ _
      · exact map_openStart_modify (f := fun e => e.endOpen stop around.markers) (fun _ => rfl) _ _

end ElementTable

namespace TagReader

theorem starts_step (r : TagReader) (around : Surroundings) (byte : UInt8) :
    (r.step around byte).1.table.starts = r.table.starts := by
  unfold step
  simp only
  split
  · rfl
  · exact r.table.starts_addTag around _

/-- Bytes end tags, but only a marker enters an element into the table. -/
theorem starts_feed (r : TagReader) (around : Surroundings) (bytes : List UInt8) :
    (r.feed around bytes).1.table.starts = r.table.starts := by
  induction bytes generalizing r with
  | nil => rfl
  | cons byte bytes ih =>
    have hstep := r.starts_step around byte
    unfold feed
    split
    · next next h =>
      rw [ih, ← hstep, h]
    · next next name h => rw [← hstep, h]

theorem starts_attachMarker (r : TagReader) :
    r.attachMarker.1.table.starts = r.table.starts ∨
      (r.table.current = none ∧
        r.attachMarker.1.table.starts = r.table.starts ++ [r.lexer.tagStart]) := by
  unfold attachMarker ElementTable.attach
  cases hi : r.table.current with
  | some index => exact .inl rfl
  | none => exact .inr ⟨rfl, by simp [ElementTable.starts]⟩

end TagReader

end HtmlTemplate
