import HtmlTemplate.Proofs.Template.Growth
import HtmlTemplate.Proofs.Template.Outline

/-!
# Where the nodes of an outline are laid out

A compiled template holds the outline of its source in flat form. `LaidOut`
says which part of the template an outline takes up: its texts are literal bytes
there, its callbacks are those of markers there, and each wrapper start knows
the index of its end.

Results:
1. `LaidOut.le`, `LaidOut.content_between`: a part ends behind its beginning and
   within the template, and the content marker stands in between.
2. `remains_of_foldlM`: the pieces still to be added have an outline, and when
   they are added it is laid out from the place that had been reached.
3. `laidOut_of_compile?`: a compiled template is the outline of its source.
-/

namespace HtmlTemplate

variable {ω δ : Type}

/-- The place behind the marker that stands here. -/
def Place.next (p : Place) : Place := { p with marker := p.marker + 1 }

/-- The place behind literal bytes that stand here. -/
def Place.skip (p : Place) (bytes : Nat) : Place := { p with offset := p.offset + bytes }

/-- A marker with this action stands at the place. -/
def Template.HasMarker (t : Template ω δ) (p : Place) (action : Action ω δ) : Prop :=
  ∃ m : Marker ω δ, t.markers[p.marker]? = some m ∧ m.position = p.offset ∧ m.action = action

namespace Outline

/-! ## 1. Layout -/

/-- `LaidOut t content room o p q`: the outline `o` takes up the part of the
template from `p` to `q`. The content marker stands at `content`, and the
wrappers of `o` are at most `room` deep. -/
inductive LaidOut (t : Template ω δ) (content? : Option Place) :
    Nat → Outline ω δ → Place → Place → Prop
  | stop {room : Nat} {p : Place} : p.offset ≤ t.html.size → LaidOut t content? room .stop p p
  | text {room : Nat} {html : String} {rest : Outline ω δ} {p q : Place} :
      t.html.extract p.offset (p.offset + html.toUTF8.size) = html.toUTF8 →
      LaidOut t content? room rest (p.skip html.toUTF8.size) q →
      LaidOut t content? room (.text html rest) p q
  | content {room : Nat} {rest : Outline ω δ} {p q : Place} :
      content? = some p → LaidOut t content? room rest p q →
      LaidOut t content? room (.content rest) p q
  | plain {room : Nat} {run : δ → Render ω Unit} {rest : Outline ω δ} {p q : Place} :
      t.HasMarker p (.plain run) → LaidOut t content? room rest p.next q →
      LaidOut t content? room (.plain run rest) p q
  | attributes {room element : Nat} {run : δ → AttributeRender ω Unit} {rest : Outline ω δ}
      {p q : Place} :
      t.HasMarker p (.attributes run element) → element < t.elements.size →
      LaidOut t content? room rest p.next q →
      LaidOut t content? room (.attributes run rest) p q
  | wrapper {room : Nat} {run : δ → WrapperRender ω Unit} {inside rest : Outline ω δ}
      {p q r : Place} :
      t.HasMarker p (.wrapperStart run (some r.marker)) →
      LaidOut t content? room inside p.next r →
      t.HasMarker r (.wrapperEnd p.marker) →
      LaidOut t content? (room + 1) rest r.next q →
      LaidOut t content? (room + 1) (.wrapper run inside rest) p q
  | folded {room : Nat} {inside rest : Outline ω δ} {p q r : Place} :
      LaidOut t content? room inside p r → LaidOut t content? room rest r q →
      LaidOut t content? room (.folded inside rest) p q

namespace LaidOut

variable {t : Template ω δ} {content? : Option Place} {room : Nat} {o : Outline ω δ} {p q : Place}

theorem le (h : LaidOut t content? room o p q) :
    p.marker ≤ q.marker ∧ p.offset ≤ q.offset ∧ q.offset ≤ t.html.size := by
  induction h with
  | stop hp => exact ⟨Nat.le_refl _, Nat.le_refl _, hp⟩
  | text _ _ ih => exact ⟨ih.1, Nat.le_trans (Nat.le_add_right _ _) ih.2.1, ih.2.2⟩
  | content _ _ ih => exact ih
  | plain _ _ ih | attributes _ _ _ ih => exact ⟨Nat.le_of_succ_le ih.1, ih.2⟩
  | wrapper _ _ _ _ ihi ih =>
    exact ⟨Nat.le_of_succ_le (Nat.le_trans ihi.1 (Nat.le_of_succ_le ih.1)),
      Nat.le_trans ihi.2.1 ih.2.1, ih.2.2⟩
  | folded _ _ ihi ih =>
    exact ⟨Nat.le_trans ihi.1 ih.1, Nat.le_trans ihi.2.1 ih.2.1, ih.2.2⟩

theorem mono {room' : Nat} (h : LaidOut t content? room o p q) (hle : room ≤ room') :
    LaidOut t content? room' o p q := by
  induction h generalizing room' with
  | stop hp => exact .stop hp
  | text hhtml _ ih => exact .text hhtml (ih hle)
  | content hc _ ih => exact .content hc (ih hle)
  | plain hm _ ih => exact .plain hm (ih hle)
  | attributes hm he _ ih => exact .attributes hm he (ih hle)
  | wrapper hm _ hend _ ihi ih =>
    obtain ⟨n, rfl⟩ : ∃ n, room' = n + 1 := ⟨room' - 1, by omega⟩
    exact .wrapper hm (ihi (Nat.le_of_succ_le_succ hle)) hend (ih hle)
  | folded _ _ ihi ih => exact .folded (ihi hle) (ih hle)

/-- The content marker stands inside of the part that its outline takes up. -/
theorem content_between {x : Place} (h : LaidOut t (some x) room o p q)
    (hc : o.hasContent = true) :
    p.marker ≤ x.marker ∧ p.offset ≤ x.offset ∧ x.marker ≤ q.marker ∧ x.offset ≤ q.offset := by
  induction h with
  | stop _ => cases hc
  | text _ _ ih =>
    have := ih hc
    exact ⟨this.1, Nat.le_trans (Nat.le_add_right _ _) this.2.1, this.2.2⟩
  | content hx hrest _ =>
    cases hx
    exact ⟨Nat.le_refl _, Nat.le_refl _, hrest.le.1, hrest.le.2.1⟩
  | plain _ _ ih | attributes _ _ _ ih =>
    have := ih hc
    exact ⟨Nat.le_of_succ_le this.1, this.2⟩
  | wrapper _ hinside _ hrest ihi ih =>
    have hi := hinside.le
    have hr := hrest.le
    rcases Bool.or_eq_true_iff.mp hc with hc | hc
    · have := ihi hc
      exact ⟨Nat.le_of_succ_le this.1, this.2.1,
        Nat.le_trans this.2.2.1 (Nat.le_of_succ_le hr.1), Nat.le_trans this.2.2.2 hr.2.1⟩
    · have := ih hc
      exact ⟨Nat.le_trans (Nat.le_of_succ_le hi.1) (Nat.le_of_succ_le this.1),
        Nat.le_trans hi.2.1 this.2.1, this.2.2⟩
  | folded hinside hrest ihi ih =>
    have hi := hinside.le
    have hr := hrest.le
    rcases Bool.or_eq_true_iff.mp hc with hc | hc
    · have := ihi hc
      exact ⟨this.1, this.2.1, Nat.le_trans this.2.2.1 hr.1, Nat.le_trans this.2.2.2 hr.2.1⟩
    · have := ih hc
      exact ⟨Nat.le_trans hi.1 this.1, Nat.le_trans hi.2.1 this.2.1, this.2.2⟩

end LaidOut

/-- The outline `o` is laid out from `p` to the end of the innermost open
wrapper, and each of the outlines `os` from behind the end of a wrapper to the
end of the next one. -/
inductive LaidOutIn (t : Template ω δ) (content? : Option Place) :
    Nat → List (Option Nat) → Outline ω δ → List (Outline ω δ) → Place → Prop
  | last {room : Nat} {o : Outline ω δ} {p : Place} :
      LaidOut t content? room o p t.stop → LaidOutIn t content? room [] o [] p
  | folded {room : Nat} {opened : List (Option Nat)} {o o' : Outline ω δ}
      {os : List (Outline ω δ)} {p r : Place} :
      LaidOut t content? room o p r → LaidOutIn t content? room opened o' os r →
      LaidOutIn t content? room (none :: opened) o (o' :: os) p
  | kept {room opening : Nat} {opened : List (Option Nat)} {o o' : Outline ω δ}
      {os : List (Outline ω δ)} {p r : Place} :
      LaidOut t content? room o p r →
      t.markers[opening]?.bind Marker.closing? = some r.marker →
      t.HasMarker r (.wrapperEnd opening) →
      LaidOutIn t content? (room + 1) opened o' os r.next →
      LaidOutIn t content? room (some opening :: opened) o (o' :: os) p

namespace LaidOutIn

variable {t : Template ω δ} {content? : Option Place} {room : Nat} {opened : List (Option Nat)}
  {o o' : Outline ω δ} {os : List (Outline ω δ)} {p p' : Place}

/-- A node may be put in front. -/
theorem prepend (hnode : ∀ q, LaidOut t content? room o p q → LaidOut t content? room o' p' q)
    (h : LaidOutIn t content? room opened o os p) : LaidOutIn t content? room opened o' os p' := by
  cases h with
  | last h => exact .last (hnode _ h)
  | folded h hs => exact .folded (hnode _ h) hs
  | kept h hc hr hs => exact .kept (hnode _ h) hc hr hs

/-- Behind the end of an open wrapper something is laid out. -/
theorem exists_cons {opening : Option Nat}
    (h : LaidOutIn t content? room (opening :: opened) o os p) :
    ∃ rest os', os = rest :: os' := by
  cases h with
  | folded _ _ => exact ⟨_, _, rfl⟩
  | kept _ _ _ _ => exact ⟨_, _, rfl⟩

/-- The start of an open wrapper completes it. -/
theorem wrapper {inside rest : Outline ω δ} {run : δ → WrapperRender ω Unit} {c : Option Nat}
    (hm : t.HasMarker p (.wrapperStart run c))
    (h : LaidOutIn t content? room (some p.marker :: opened) inside (rest :: os) p.next) :
    LaidOutIn t content? (room + 1) opened (.wrapper run inside rest) os p := by
  obtain ⟨m, hm, hp, ha⟩ := hm
  cases h with
  | kept hi hc hr hs =>
    simp only [hm, Option.bind_some, Marker.closing?, ha] at hc
    subst hc
    exact hs.prepend fun q hq => .wrapper ⟨m, hm, hp, ha⟩ hi hr hq

theorem wrapper_folded {inside rest : Outline ω δ}
    (h : LaidOutIn t content? room (none :: opened) inside (rest :: os) p) :
    LaidOutIn t content? room opened (.folded inside rest) os p := by
  cases h with
  | folded hi hs => exact hs.prepend fun q hq => .folded hi hq

end LaidOutIn

end Outline

/-! ## 2. Layout of what is still to be added -/

namespace Assembly

open Outline

variable {a b z : Assembly ω δ} {o : Outline ω δ} {os : List (Outline ω δ)}

theorem Nested.lt_of_mem_keptWrappers (h : Nested a) {i : Nat} (hi : i ∈ a.keptWrappers) :
    i < a.markers.size :=
  lt_of_mem_openBefore (h.opened ▸ hi)

/-- Bytes that have been added stand in the finished template. -/
theorem Grows.extract_html {bytes : ByteArray} (h : Grows b z) (hb : b.html = a.html ++ bytes) :
    z.html.extract a.html.size (a.html.size + bytes.size) = bytes := by
  obtain ⟨more, hz⟩ := h.html
  have hsize : a.html.size + bytes.size = b.html.size := by rw [hb, ByteArray.size_append]
  rw [hz, hsize, ByteArray.extract_append_size_left, hb]
  exact ByteArray.extract_append_eq_right rfl ByteArray.size_append

theorem Grows.size_html_le (h : Grows a z) : a.html.size ≤ z.html.size := by
  obtain ⟨more, hz⟩ := h.html
  rw [hz, ByteArray.size_append]
  exact Nat.le_add_right _ _

/-- A marker that has been added and is not open stands in the finished template. -/
theorem Grows.hasMarker {m : Marker ω δ} (h : Grows b z) (hm : b.markers[a.markers.size]? = some m)
    (hp : m.position = a.html.size) (hk : a.markers.size ∉ b.keptWrappers) :
    z.template.HasMarker a.place m.action :=
  ⟨m, h.settled _ m hm hk, hp, rfl⟩

/-- A wrapper start that has been added stands in the finished template. -/
theorem Grows.hasMarker_wrapperStart {name : String} {run : δ → WrapperRender ω Unit}
    (h : Grows (a.openWrapper name run) z) :
    ∃ closing, z.template.HasMarker a.place (.wrapperStart run closing) := by
  have hm : (a.openWrapper name run).markers[a.markers.size]? =
      some { name := name, span := ⟨a.lastPosition, a.html.size⟩,
             action := .wrapperStart run none } := Array.getElem?_push_size
  rcases h.marker _ _ hm with hz | ⟨closing, hz⟩
  · exact ⟨none, _, hz, rfl, rfl⟩
  · exact ⟨some closing, _, hz, rfl, rfl⟩

/-- A wrapper end that has been added stands in the finished template, and its
start knows of it. -/
theorem Grows.hasMarker_wrapperEnd {i : Nat} {rest : List (Option Nat)} (hn : Nested a)
    (ho : a.openWrappers = some i :: rest)
    (h : Grows ({ a with openWrappers := rest }.closeWrapper i) z) :
    z.markers[i]?.bind Marker.closing? = some a.markers.size ∧
      z.template.HasMarker a.place (.wrapperEnd i) := by
  have hkept : a.keptWrappers = i :: rest.filterMap id := by simp [keptWrappers, ho]
  have hopened := hn.opened
  rw [hkept] at hopened
  have hi : i < a.markers.size := hn.lt_of_mem_keptWrappers (hkept ▸ List.mem_cons_self)
  obtain ⟨m, hm, hp, hmarkers⟩ := markers_closeWrapper { a with openWrappers := rest } i
  constructor
  · have hmem : i ∈ openBefore a.markers a.markers.size := hopened ▸ List.mem_cons_self
    obtain ⟨-, n, run, closing, hni, hna⟩ := start_of_mem_openBefore hmem
    have hnew : ({ a with openWrappers := rest }.closeWrapper i).markers[i]? =
        some (n.closedBy a.markers.size) := by
      rw [hmarkers, Array.getElem?_modify, if_pos rfl, Balanced.getElem?_push_of_some hni]
      rfl
    -- The wrappers around it have started before, so it is not open any more.
    have hout : i ∉ rest.filterMap id := by
      intro hmem
      rw [tail_openBefore_cons hopened] at hmem
      exact Nat.lt_irrefl i (lt_of_mem_openBefore hmem)
    rw [h.settled i _ hnew hout, Option.bind_some, Marker.closing?,
      action_closedBy_of_wrapperStart hna]
  · have hnew : ({ a with openWrappers := rest }.closeWrapper i).markers[a.markers.size]? =
        some m := by
      rw [hmarkers, Array.getElem?_modify, if_neg (Nat.ne_of_lt hi)]
      exact Array.getElem?_push_size
    have hout : a.markers.size ∉ rest.filterMap id := by
      intro hmem
      exact Nat.lt_irrefl _ (hn.lt_of_mem_keptWrappers (hkept ▸ List.mem_cons_of_mem _ hmem))
    exact hm ▸ h.hasMarker hnew hp hout

/-- Every attribute marker has an element. -/
def AttributesKnown (a : Assembly ω δ) : Prop :=
  ∀ (i : Nat) (m : Marker ω δ) (run : δ → AttributeRender ω Unit) (element : Nat),
    a.markers[i]? = some m → m.action = .attributes run element →
      element < a.reader.table.elements.size

/-- The outline `o`, and `os` behind the ends of the open wrappers, are laid out in
the finished assembly `z` from the place that `a` has reached. -/
def Remains (a z : Assembly ω δ) (o : Outline ω δ) (os : List (Outline ω δ)) : Prop :=
  LaidOutIn z.template z.content (z.maxNesting - a.keptWrappers.length) a.openWrappers o os a.place

@[simp] theorem place_addMarker (a : Assembly ω δ) (name : String) (action : Action ω δ) :
    (a.addMarker name action).place = a.place.next := by
  simp [place, Place.next, addMarker]

@[simp] theorem place_openWrapper (a : Assembly ω δ) (name : String)
    (run : δ → WrapperRender ω Unit) : (a.openWrapper name run).place = a.place.next :=
  place_addMarker a name (.wrapperStart run none)

@[simp] theorem place_closeWrapper (a : Assembly ω δ) (i : Nat) :
    (a.closeWrapper i).place = a.place.next := by
  simp [place, Place.next, closeWrapper, addMarker]

/-- An open wrapper leaves room around it. -/
theorem Nested.room_succ (hn : Nested a) (h : Grows a z) {i : Nat} {rest : List Nat}
    (hk : a.keptWrappers = i :: rest) :
    z.maxNesting - rest.length = z.maxNesting - a.keptWrappers.length + 1 := by
  have hle := hn.nesting_le _ (Nat.le_refl _)
  have hmax := h.nesting_le
  rw [hn.opened, hk, List.length_cons] at hle
  rw [hk, List.length_cons]
  omega

namespace Remains

/-- Bytes that are added are a text in front. -/
theorem text {html : String} (h : Grows b z) (hb : b.html = a.html ++ html.toUTF8)
    (hm : b.markers = a.markers) (ho : b.openWrappers = a.openWrappers) (hl : Remains b z o os) :
    Remains a z (.text html o) os := by
  have hp : b.place = a.place.skip html.toUTF8.size := by
    simp [Assembly.place, Place.skip, hm, hb]
  unfold Remains keptWrappers at hl ⊢
  rw [hp, ho] at hl
  exact hl.prepend fun q hq => .text (h.extract_html hb) hq

/-- A plain token that has been placed is a node in front. -/
theorem plain {d : Declaration ω δ} (hp : Placed a d false b) (ha : Nested a) (h : Grows b z)
    (hz : z.AttributesKnown) (hl : Remains b z o os) :
    ∃ o', plainNode? d o = some o' ∧ Remains a z o' os := by
  have hout : a.markers.size ∉ a.keptWrappers := fun hi =>
    Nat.lt_irrefl _ (ha.lt_of_mem_keptWrappers hi)
  cases hp with
  | plain run hc =>
    have hm := h.hasMarker (a := a) Array.getElem?_push_size rfl hout
    unfold Remains at hl
    rw [place_addMarker] at hl
    exact ⟨.plain run o, by simp [plainNode?, hc], hl.prepend fun q hq => .plain hm hq⟩
  | attributes run hc =>
    have hm := h.hasMarker (a := a) Array.getElem?_push_size rfl hout
    have helement : a.reader.interrupt.attachMarker.2 < z.template.elements.size := by
      obtain ⟨m, hi, -, hma⟩ := hm
      exact hz _ m run _ hi hma
    unfold Remains at hl
    rw [place_addMarker] at hl
    exact ⟨.attributes run o, by simp [plainNode?, hc],
      hl.prepend fun q hq => .attributes hm helement hq⟩
  | folded hc => exact ⟨o, by simp [plainNode?, hc], hl⟩

/-- A wrapper start that has been placed completes a wrapper in front. -/
theorem wrapper {d : Declaration ω δ} {inside : Outline ω δ} (hp : Placed a d true b)
    (hb : Nested b) (h : Grows b z) (hl : Remains b z inside os) :
    ∃ rest os' o', os = rest :: os' ∧ wrapperNode? d inside rest = some o' ∧
      Remains a z o' os' := by
  cases hp with
  | wrapper run hc =>
    obtain ⟨closing, hm⟩ := h.hasMarker_wrapperStart
    obtain ⟨rest, os', rfl⟩ := LaidOutIn.exists_cons hl
    refine ⟨rest, os', .wrapper run inside rest, rfl, by simp [wrapperNode?, hc], ?_⟩
    unfold Remains at hl ⊢
    have hkept : (a.interrupt.openWrapper d.name run).keptWrappers =
        a.markers.size :: a.keptWrappers := rfl
    rw [hb.room_succ h hkept]
    rw [place_openWrapper] at hl
    exact hl.wrapper hm
  | foldedWrapper hc =>
    obtain ⟨rest, os', rfl⟩ := LaidOutIn.exists_cons hl
    exact ⟨rest, os', .folded inside rest, rfl, by simp [wrapperNode?, hc], hl.wrapper_folded⟩

/-- At a wrapper end that has been added, the current outline stops. -/
theorem wrapperEnd {i : Nat} {opened : List (Option Nat)} (ha : Nested a)
    (ho : a.openWrappers = some i :: opened)
    (h : Grows ({ a with openWrappers := opened }.closeWrapper i) z)
    (hl : Remains ({ a with openWrappers := opened }.closeWrapper i) z o os) :
    Remains a z .stop (o :: os) := by
  have hkept : a.keptWrappers = i :: opened.filterMap id := by simp [keptWrappers, ho]
  obtain ⟨hc, hm⟩ := h.hasMarker_wrapperEnd ha ho
  unfold Remains at hl ⊢
  rw [place_closeWrapper] at hl
  rw [ho]
  refine .kept (.stop h.size_html_le) hc hm ?_
  rw [← ha.room_succ ((Grows.closeWrapper ho).trans h) hkept]
  exact hl

theorem wrapperEnd_folded {opened : List (Option Nat)} (ho : a.openWrappers = none :: opened)
    (h : Grows a z) (hl : Remains { a with openWrappers := opened } z o os) :
    Remains a z .stop (o :: os) := by
  have hkept : a.keptWrappers = opened.filterMap id := by simp [keptWrappers, ho]
  unfold Remains at hl ⊢
  rw [ho, hkept]
  exact .folded (.stop h.size_html_le) hl

end Remains

/-! ## 3. Layout of a template -/

theorem Placed.declarations_eq {d : Declaration ω δ} {isWrapper : Bool}
    (h : Placed a d isWrapper b) : b.declarations = a.declarations := by
  cases h <;> rfl

/-- The assembly when a named token has used up a declaration, with its static text. -/
theorem Nested.static {ds : List (Declaration ω δ)} {seen : List String} {r : TagReader}
    {bytes : ByteArray} (h : Nested a) :
    Nested { a with declarations := ds, seen := seen, reader := r, html := a.html ++ bytes } :=
  h.congr rfl rfl rfl rfl (by simp)

theorem toUTF8_singleton (c : Char) :
    (String.singleton c).toUTF8 = (String.utf8EncodeChar c).toByteArray := by
  simp [List.utf8Encode]

/-- The content marker of the finished assembly has been met, or it is among the
nodes of an outline. -/
def ContentIn (a z : Assembly ω δ) (o : Outline ω δ) (os : List (Outline ω δ)) : Prop :=
  z.content.isSome = true → a.content.isSome = true ∨ (o :: os).any hasContent = true

theorem Placed.content_eq {d : Declaration ω δ} {isWrapper : Bool} (h : Placed a d isWrapper b) :
    b.content = a.content := by
  cases h <;> rfl

theorem hasContent_of_plainNode? {d : Declaration ω δ} {o o' : Outline ω δ}
    (h : plainNode? d o = some o') : o'.hasContent = o.hasContent := by
  unfold plainNode? at h
  split at h <;> cases h <;> rfl

theorem hasContent_of_wrapperNode? {d : Declaration ω δ} {inside rest o : Outline ω δ}
    (h : wrapperNode? d inside rest = some o) :
    o.hasContent = (inside.hasContent || rest.hasContent) := by
  unfold wrapperNode? at h
  split at h <;> cases h <;> rfl

/-- The pieces that are still to be added have an outline, which is laid out in the
finished assembly. -/
theorem remains_of_foldlM {pieces : List Piece} (ha : Nested a)
    (h : pieces.foldlM addPiece a = .ok z) (ho : z.openWrappers = []) (hd : z.declarations = [])
    (hz : z.AttributesKnown) :
    ∃ o os, Outline.parse pieces a.declarations = some (o, os) ∧ Remains a z o os ∧
      ContentIn a z o os := by
  -- The finished assembly stays the same; the assembly reached moves on to it.
  induction pieces generalizing a with
  | nil =>
    cases h
    refine ⟨.stop, [], by simp [Outline.parse, hd], ?_, fun hc => .inl hc⟩
    unfold Remains
    rw [ho]
    exact .last (.stop (Nat.le_refl _))
  | cons p pieces ih =>
    obtain ⟨b, hb, hrest⟩ := exists_ok_of_bind h
    have hgrows : Grows b z := grows_of_foldlM hrest
    cases p with
    | text c =>
      obtain ⟨r, hr, rfl⟩ := addBytes_eq_ok hb
      obtain ⟨o, os, hparse, hl, hc⟩ := ih (Nested.edit (.bytes hr) ha) hrest
      refine ⟨.text (String.singleton c) o, os, by simp [Outline.parse, hparse], ?_, hc⟩
      exact hl.text hgrows (by rw [toUTF8_singleton]) rfl rfl
    | token t =>
      obtain ⟨kind, start, stop⟩ := t
      cases kind with
      | content =>
        obtain ⟨hin, hc, rfl⟩ := addContent_eq_ok hb
        obtain ⟨o, os, hparse, hl, -⟩ := ih (Nested.edit (.content hin hc) ha) hrest
        refine ⟨.content o, os, by simp [Outline.parse, hparse], ?_, fun _ => .inr rfl⟩
        exact LaidOutIn.prepend (fun q hq => .content (hgrows.content _ rfl) hq) hl
      | wrapperEnd =>
        have hi : Nested a.interrupt := ha.congr rfl rfl rfl rfl (Nat.le_refl _)
        obtain ⟨o, os, hparse, hl, hc⟩ := ih (Nested.edit (edit_of_addWrapperEnd hb) ha) hrest
        obtain ⟨opening, opened, ho', -, -, rfl⟩ := addWrapperEnd_eq_ok hb
        cases opening with
        | none =>
          refine ⟨.stop, o :: os, by simp [Outline.parse, hparse], ?_, hc⟩
          exact Remains.wrapperEnd_folded (a := a) ho' (grows_of_foldlM h) hl
        | some i =>
          refine ⟨.stop, o :: os, ?_, Remains.wrapperEnd (a := a.interrupt) hi ho' hgrows hl, hc⟩
          have hparse : Outline.parse pieces a.declarations = some (o, os) := hparse
          simp [Outline.parse, hparse]
      | plain name =>
        obtain ⟨d, ds, r, hds, rfl, -, hr, hp⟩ := addNamed_eq_ok hb
        obtain ⟨o, os, hparse, hl, hc⟩ := ih (ha.static.placed hp) hrest
        rw [hp.declarations_eq] at hparse
        obtain ⟨o', hnode, hl⟩ := hl.plain hp ha.static hgrows hz
        refine ⟨.text d.staticHtml o', os, by simp [Outline.parse, hds, hparse, hnode], ?_, ?_⟩
        · exact hl.text ((Grows.placed hp).trans hgrows) rfl rfl rfl
        · intro hz
          simpa [hasContent, hasContent_of_plainNode? hnode, hp.content_eq] using hc hz
      | wrapperStart name =>
        obtain ⟨d, ds, r, hds, rfl, -, hr, hp⟩ := addNamed_eq_ok hb
        have hb' : Nested b := ha.static.placed hp
        -- What is read next are the children; behind their end stands the rest.
        obtain ⟨inside, os, hparse, hl, hc⟩ := ih hb' hrest
        rw [hp.declarations_eq] at hparse
        obtain ⟨rest, os, o', rfl, hnode, hl⟩ := hl.wrapper hp hb' hgrows
        refine ⟨.text d.staticHtml o', os, by simp [Outline.parse, hds, hparse, hnode], ?_, ?_⟩
        · exact hl.text ((Grows.placed hp).trans hgrows) rfl rfl rfl
        · intro hz
          simpa [hasContent, hasContent_of_wrapperNode? hnode, hp.content_eq, or_assoc] using hc hz

/-- The outline of a source is laid out in the compiled template. -/
theorem laidOut_of_compile? {source : String} {declarations : List (Declaration ω δ)}
    {t : Template ω δ} (h : compile? source declarations = .ok (z, t)) (hz : z.AttributesKnown) :
    ∃ o, Outline.ofSource? source declarations = some o ∧
      LaidOut t z.content z.maxNesting o t.start t.stop ∧
      (z.content.isSome = true → o.hasContent = true) := by
  obtain ⟨counts, hfold, hfinish⟩ := compile?_eq_ok h
  obtain ⟨ho, hd, -, rfl⟩ := finish_eq_ok hfinish
  obtain ⟨o, os, hparse, hl, hc⟩ := remains_of_foldlM (.initial counts declarations) hfold ho hd hz
  cases hl with
  | last hl =>
    refine ⟨o, ?_, hl, fun hz => by simpa [Assembly.initial] using hc hz⟩
    have hparse : Outline.parse (pieces source) declarations = some (o, []) := hparse
    simp [Outline.ofSource?, hparse]

end Assembly

end HtmlTemplate
