import HtmlTemplate.Proofs.Template.Layout
import HtmlTemplate.Proofs.Template.Tracking

/-!
# What holds of a compiled template

Rendering relies on facts about the template that no function checks: markers
stand in the order of their positions, wrapper starts and ends belong to each
other, and the tags of elements agree with the markers. All of them follow from
what an assembly keeps while pieces are added.

Results:
1. `Assembly.Consistent`: the tag reader of an assembly is right about its
   literal bytes and markers. Every edit keeps it (`Consistent.edit`).
2. `Template.WellFormed`: what is left of that in the template
   (`Assembly.wellFormed_of_compile?`).
3. `Component.laidOut_of_compile`, `Wrapper.laidOut_of_compile`: the outline of the
   source is laid out in the template.
4. `Assembly.declaredIn_of_compile?`, `Template.eachCallback_of_compile?`: the callbacks of
   the markers are those declared.
-/

namespace HtmlTemplate

variable {ω δ : Type}

/-! ## 1. Assemblies -/

namespace Assembly

variable {a b : Assembly ω δ}

/-- The tag reader is right about what has been compiled. -/
structure Consistent (a : Assembly ω δ) : Prop extends Nested a where
  offset_eq : a.reader.offset = a.html.size
  tracks : a.reader.Tracks a.markers a.openWrappers a.content

namespace Consistent

theorem initial (counts : MarkerCounts) (declarations : List (Declaration ω δ)) :
    Consistent (Assembly.initial counts declarations) :=
  ⟨.initial counts declarations, rfl, .initial⟩

theorem placed (h : Consistent a) {d : Declaration ω δ} {isWrapper : Bool}
    (hp : Placed a d isWrapper b) : Consistent b := by
  have hi := h.tracks.interrupt
  have ho : a.html.size = a.reader.offset := h.offset_eq.symm
  refine { h.toNested.placed hp with offset_eq := ?_, tracks := ?_ }
  · cases hp with
    | _ => exact h.offset_eq
  · cases hp with
    | plain run hc hin hend =>
      refine hi.push ho (TagState.stage_interrupted_ne_started hend) (fun _ => rfl) ?_
      intro run index ha
      cases ha
    | attributes run hc hin =>
      have hs := TagReader.stage_of_inStartTag hin
      obtain ⟨hattach, hcurrent⟩ := hi.attach hs
      refine hattach.push ho (by simp [hs]) (fun _ => rfl) ?_
      intro run index ha
      cases ha
      exact hcurrent
    | wrapper run hc hin =>
      have hs := TagReader.stage_of_insideTag hin
      have hpush := hi.push (m := ⟨d.name, ⟨a.lastPosition, a.html.size⟩, .wrapperStart run none⟩)
        ho (by simp [hs]) (fun hs' => absurd (hs'.symm.trans hs) (by decide)) ?_
      · exact hpush.openWrapper _
      · intro run index ha
        cases ha
    | folded hc hend => exact hi
    | foldedWrapper hc hin => exact hi.openWrapper none

theorem edit (he : Edit a b) (h : Consistent a) : Consistent b := by
  have hi := h.tracks.interrupt
  cases he with
  | @bytes bytes r hr =>
    obtain ⟨ht, ho⟩ := h.tracks.feed h.opened hr
    refine ⟨.edit (.bytes hr) h.toNested, ?_, ht⟩
    show r.offset = (a.html ++ bytes.toByteArray).size
    rw [ho, h.offset_eq, ByteArray.size_append, List.size_toByteArray]
  | declaration rest seen =>
    exact ⟨.edit (.declaration rest seen) h.toNested, h.offset_eq, h.tracks⟩
  | content hin hc =>
    refine ⟨.edit (.content hin hc) h.toNested, h.offset_eq, ?_⟩
    rw [hc] at hi
    have hm := hi.markContent (TagReader.stage_of_insideTag hin)
    rwa [show a.reader.interrupt.offset = a.html.size from h.offset_eq] at hm
  | unfold ho hin hcross =>
    refine ⟨.edit (.unfold ho hin hcross) h.toNested, h.offset_eq, ?_⟩
    rw [ho] at hi
    exact hi.closeWrapper hcross
  | @close i rest ho hin hcross =>
    refine ⟨.edit (.close ho hin hcross) h.toNested, h.offset_eq, ?_⟩
    rw [ho] at hi
    obtain ⟨m, hm, hp, hmarkers⟩ :=
      markers_closeWrapper { a with reader := a.reader.interrupt, openWrappers := rest } i
    have hs := TagReader.stage_of_insideTag hin
    have hpush := (hi.closeWrapper hcross).push (hp.trans h.offset_eq.symm) (by simp [hs])
      (fun hs' => absurd (hs'.symm.trans hs) (by decide)) fun run index ha => by
        rw [hm] at ha
        cases ha
    rw [hmarkers]
    exact hpush.congr (alike_closedBy _ _ _)
  | placed hp => exact h.placed hp

end Consistent

/-- At the end of the source no element waits for its end tag. -/
theorem Consistent.closed_of_finish (h : Consistent a)
    (hu : a.reader.table.unclosed? a.reader.insideTag = none) {index : Nat} {e : Element}
    (he : a.reader.table.elements[index]? = some e) :
    a.reader.table.current = none ∧ e.Closed a.markers a.html.size a.content := by
  have hpending : a.reader.table.pending = [] := by
    cases hp : a.reader.table.pending with
    | nil => rfl
    | cons p rest => simp [ElementTable.unclosed?, hp] at hu
  have hcurrent : a.reader.table.current = none := by
    cases hc : a.reader.table.current with
    | none => rfl
    | some index =>
      have hin := TagReader.insideTag_of_stage (h.tracks.current index hc).1
      simp [ElementTable.unclosed?, hpending, hin, hc] at hu
  refine ⟨hcurrent, ?_⟩
  rcases h.tracks.closed index e he with hc | ⟨depth, hd⟩ | hc
  · rw [hcurrent] at hc
    cases hc
  · rw [hpending] at hd
    cases hd
  · rw [← h.offset_eq]
    exact hc

end Assembly

/-! ## 2. Templates -/

/-- The place cuts the template in two: no marker from there on stands before it. -/
structure Template.Cuts (t : Template ω δ) (p : Place) : Prop where
  marker_le : p.marker ≤ t.markers.size
  offset_le : p.offset ≤ t.html.size
  ahead : ∀ (i : Nat) (m : Marker ω δ), p.marker ≤ i → t.markers[i]? = some m →
    p.offset ≤ m.position

/-- The markers and elements of a template fit together, and the content marker stands
at the given place. -/
structure Template.WellFormed (t : Template ω δ) (content? : Option Place) (maxNesting : Nat) :
    Prop where
  ordered : Ordered t.markers t.html.size
  balanced : Balanced t.markers
  /-- No wrapper is open at the end. -/
  complete : openBefore t.markers t.markers.size = []
  nesting_le : ∀ i, i ≤ t.markers.size → (openBefore t.markers i).length ≤ maxNesting
  closed : ∀ (index : Nat) (e : Element), t.elements[index]? = some e →
    e.Closed t.markers t.html.size content?
  /-- An attribute marker stands in the start tag of its element. -/
  owner : ∀ (i : Nat) (m : Marker ω δ) (run : δ → AttributeRender ω Unit) (index : Nat),
    t.markers[i]? = some m → m.action = .attributes run index →
      ∃ e : Element, t.elements[index]? = some e ∧ e.openStart < m.position ∧
        i < e.firstInnerMarker
  content_cuts : ∀ x, content? = some x → t.Cuts x
  /-- The markers before the content marker. -/
  content_behind : ∀ x, content? = some x → ∀ (i : Nat) (m : Marker ω δ), i < x.marker →
    t.markers[i]? = some m → m.position ≤ x.offset

namespace Assembly

variable {a : Assembly ω δ} {t : Template ω δ} {source : String}
  {declarations : List (Declaration ω δ)}

theorem consistent_of_compile? (h : compile? source declarations = .ok (a, t)) : a.Consistent := by
  obtain ⟨counts, hfold, -⟩ := compile?_eq_ok h
  exact invariant_of_foldlM (fun _ _ => Consistent.edit) hfold (.initial counts declarations)

theorem wellFormed_of_compile? (h : compile? source declarations = .ok (a, t)) :
    t.WellFormed a.content a.maxNesting := by
  have ha := consistent_of_compile? h
  obtain ⟨counts, -, hfinish⟩ := compile?_eq_ok h
  obtain ⟨hopen, -, hu, rfl⟩ := finish_eq_ok hfinish
  refine
    { ordered := ha.ordered
      balanced := ha.balanced
      complete := ?_
      nesting_le := ha.nesting_le
      closed := fun index e he => (ha.closed_of_finish hu he).2
      owner := ?_
      content_cuts := ?_
      content_behind := fun x hx i m hi hm => (ha.tracks.follows.content_splits x hx i m hm).1 hi }
  · show openBefore a.markers a.markers.size = []
    rw [ha.opened, keptWrappers, hopen]
    rfl
  · intro i m run index hm hact
    obtain ⟨e, he, hpos, hc⟩ := ha.tracks.owner i m run index hm hact
    refine ⟨e, he, hpos, hc.resolve_left ?_⟩
    rw [(ha.closed_of_finish hu he).1]
    exact fun hc => by cases hc
  · intro x hx
    have hle := ha.tracks.follows.content_le x hx
    refine ⟨hle.1, Nat.le_trans hle.2 (Nat.le_of_eq ha.offset_eq), fun i m hi hm => ?_⟩
    exact (ha.tracks.follows.content_splits x hx i m hm).2 hi

theorem attributesKnown_of_compile? (h : compile? source declarations = .ok (a, t)) :
    a.AttributesKnown := by
  intro i m run index hm hact
  obtain ⟨e, he, -⟩ := (consistent_of_compile? h).tracks.owner i m run index hm hact
  exact (Array.getElem?_eq_some_iff.mp he).1

end Assembly

/-! ## 3. Layout -/

/-- The outline of its source is laid out in a component. -/
theorem Component.laidOut_of_compile {source : String} {declarations : List (Declaration ω δ)}
    {c : Component ω δ} (h : Component.compile source declarations = .ok c) :
    ∃ o, Outline.ofSource? source declarations = some o ∧
      o.LaidOut c.template none c.maxNesting c.entry c.exit := by
  obtain ⟨a, t, ht, hcontent, rfl⟩ := Component.compile_eq_ok h
  have hknown := Assembly.attributesKnown_of_compile? ht
  obtain ⟨o, ho, hl, -⟩ := Assembly.laidOut_of_compile? ht hknown
  rw [hcontent] at hl
  exact ⟨o, ho, hl⟩

/-- The outline of its source is laid out in a wrapper, with its content marker. -/
theorem Wrapper.laidOut_of_compile {source : String} {declarations : List (Declaration ω δ)}
    {w : Wrapper ω δ} (h : Wrapper.compile source declarations = .ok w) :
    ∃ o, Outline.ofSource? source declarations = some o ∧ o.hasContent = true ∧
      o.LaidOut w.template (some w.content) w.maxNesting w.template.start w.template.stop := by
  obtain ⟨a, t, content, ht, hcontent, rfl⟩ := Wrapper.compile_eq_ok h
  have hknown := Assembly.attributesKnown_of_compile? ht
  obtain ⟨o, ho, hl, hc⟩ := Assembly.laidOut_of_compile? ht hknown
  rw [hcontent] at hl hc
  exact ⟨o, ho, hc rfl, hl⟩

/-! ## 4. Callbacks -/

/-- The callback of the action is that of one of the declarations. -/
def Action.DeclaredIn (declarations : List (Declaration ω δ)) : Action ω δ → Prop
  | .plain run => ∃ d ∈ declarations, d.callback = some (.plain run)
  | .attributes run _ => ∃ d ∈ declarations, d.callback = some (.attributes run)
  | .wrapperStart run _ => ∃ d ∈ declarations, d.callback = some (.wrapper run)
  | .wrapperEnd _ => True

theorem Marker.declaredIn_closedBy {m : Marker ω δ} {declarations : List (Declaration ω δ)}
    (h : m.action.DeclaredIn declarations) (closing : Nat) :
    (m.closedBy closing).action.DeclaredIn declarations := by
  unfold closedBy
  split
  · next ha =>
    rw [ha] at h
    exact h
  · exact h

namespace Assembly

variable {a b : Assembly ω δ} {t : Template ω δ} {declarations : List (Declaration ω δ)}

/-- The declarations not used yet are among the given ones, and so are those of the
markers. -/
structure DeclaredIn (declarations : List (Declaration ω δ)) (a : Assembly ω δ) : Prop where
  unused : ∀ d ∈ a.declarations, d ∈ declarations
  marker : ∀ (i : Nat) (m : Marker ω δ), a.markers[i]? = some m →
    m.action.DeclaredIn declarations

theorem DeclaredIn.initial (counts : MarkerCounts) (declarations : List (Declaration ω δ)) :
    DeclaredIn declarations (Assembly.initial counts declarations) :=
  ⟨fun _ hd => hd, fun i m hm => by simp [Assembly.initial] at hm⟩

theorem DeclaredIn.congr (h : DeclaredIn declarations a) (hm : b.markers = a.markers)
    (hd : ∀ d ∈ b.declarations, d ∈ a.declarations) : DeclaredIn declarations b :=
  ⟨fun d hmem => h.unused d (hd d hmem), hm ▸ h.marker⟩

theorem DeclaredIn.push (h : DeclaredIn declarations a) {m : Marker ω δ}
    (hb : b.markers = a.markers.push m) (hd : b.declarations = a.declarations)
    (hm : m.action.DeclaredIn declarations) : DeclaredIn declarations b := by
  refine ⟨hd ▸ h.unused, fun i n hn => ?_⟩
  rw [hb] at hn
  rcases getElem?_push_eq_some hn with hn | ⟨-, rfl⟩
  · exact h.marker i n hn
  · exact hm

theorem DeclaredIn.closeWrapper (h : DeclaredIn declarations a) (opening : Nat) :
    DeclaredIn declarations (a.closeWrapper opening) := by
  obtain ⟨m, hm, -, hmarkers⟩ := markers_closeWrapper a opening
  refine ⟨h.unused, fun i n hn => ?_⟩
  rw [hmarkers] at hn
  obtain ⟨n₀, hn₀, rfl⟩ := getElem?_closedBy_eq_some hn
  have hdeclared : n₀.action.DeclaredIn declarations := by
    rcases getElem?_push_eq_some hn₀ with hn₀ | ⟨-, rfl⟩
    · exact h.marker i n₀ hn₀
    · rw [hm]
      trivial
  split
  · exact n₀.declaredIn_closedBy hdeclared _
  · exact hdeclared

theorem DeclaredIn.placed (h : DeclaredIn declarations a) {d : Declaration ω δ}
    (hd : d ∈ declarations) {isWrapper : Bool} (hp : Placed a d isWrapper b) :
    DeclaredIn declarations b := by
  cases hp with
  | plain run hc => exact h.push rfl rfl ⟨d, hd, hc⟩
  | attributes run hc => exact h.push rfl rfl ⟨d, hd, hc⟩
  | wrapper run hc => exact h.push rfl rfl ⟨d, hd, hc⟩
  | folded | foldedWrapper => exact h.congr rfl fun _ hd => hd

theorem DeclaredIn.addNamed (h : DeclaredIn declarations a) {name : String} {isWrapper : Bool}
    {start : Nat} (hb : a.addNamed name isWrapper start = .ok b) : DeclaredIn declarations b := by
  obtain ⟨d, rest, r, hds, -, -, -, hp⟩ := addNamed_eq_ok hb
  have hd : d ∈ declarations := h.unused d (hds ▸ List.mem_cons_self)
  refine DeclaredIn.placed ?_ hd hp
  refine h.congr rfl ?_
  intro d' hd'
  rw [hds]
  exact List.mem_cons_of_mem d hd'

theorem DeclaredIn.addPiece (h : DeclaredIn declarations a) {p : Piece}
    (hb : a.addPiece p = .ok b) : DeclaredIn declarations b := by
  cases p with
  | text c =>
    obtain ⟨r, -, rfl⟩ := addBytes_eq_ok hb
    exact h.congr rfl fun _ hd => hd
  | token t =>
    obtain ⟨kind, start, stop⟩ := t
    cases kind with
    | content =>
      obtain ⟨-, -, rfl⟩ := addContent_eq_ok hb
      exact h.congr rfl fun _ hd => hd
    | wrapperEnd =>
      obtain ⟨opening, rest, -, -, -, rfl⟩ := addWrapperEnd_eq_ok hb
      cases opening with
      | none => exact h.congr rfl fun _ hd => hd
      | some i =>
        refine DeclaredIn.closeWrapper ?_ i
        exact h.congr rfl fun _ hd => hd
    | wrapperStart name => exact h.addNamed hb
    | plain name => exact h.addNamed hb

theorem declaredIn_of_foldlM {pieces : List Piece} (h : pieces.foldlM Assembly.addPiece a = .ok b)
    (ha : DeclaredIn declarations a) : DeclaredIn declarations b := by
  induction pieces generalizing a with
  | nil =>
    cases h
    exact ha
  | cons p pieces ih =>
    obtain ⟨a', hp, h⟩ := exists_ok_of_bind h
    exact ih h (ha.addPiece hp)

/-- The callbacks of a compiled template are those of its declarations. -/
theorem declaredIn_of_compile? {source : String} (h : compile? source declarations = .ok (a, t))
    {i : Nat} {m : Marker ω δ} (hm : t.markers[i]? = some m) :
    m.action.DeclaredIn declarations := by
  obtain ⟨counts, hfold, hfinish⟩ := compile?_eq_ok h
  obtain ⟨-, -, -, rfl⟩ := finish_eq_ok hfinish
  exact (declaredIn_of_foldlM hfold (.initial counts declarations)).marker i m hm

end Assembly

/-- The callback of the action as it is declared. -/
def Action.callback? : Action ω δ → Option (Callback ω δ)
  | .plain run => some (.plain run)
  | .attributes run _ => some (.attributes run)
  | .wrapperStart run _ => some (.wrapper run)
  | .wrapperEnd _ => none

/-- Every callback of the template has the property. -/
def Template.EachCallback (t : Template ω δ) (p : Callback ω δ → Prop) : Prop :=
  ∀ (i : Nat) (m : Marker ω δ) (callback : Callback ω δ), t.markers[i]? = some m →
    m.action.callback? = some callback → p callback

theorem Template.eachCallback_of_compile? {source : String} {a : Assembly ω δ} {t : Template ω δ}
    {declarations : List (Declaration ω δ)} {p : Callback ω δ → Prop}
    (h : compile? source declarations = .ok (a, t))
    (hd : ∀ d ∈ declarations, ∀ callback, d.callback = some callback → p callback) :
    t.EachCallback p := by
  intro i m callback hm hcallback
  have hdeclared := Assembly.declaredIn_of_compile? h hm
  cases ha : m.action with
  | plain run | attributes run index | wrapperStart run closing? =>
    rw [ha] at hdeclared hcallback
    cases hcallback
    obtain ⟨d, hmem, hc⟩ := hdeclared
    exact hd d hmem _ hc
  | wrapperEnd opening =>
    rw [ha] at hcallback
    cases hcallback

/-- A property of all callbacks declared holds of all callbacks of the template. -/
theorem Component.eachCallback_of_compile {source : String} {c : Component ω δ}
    {declarations : List (Declaration ω δ)} {p : Callback ω δ → Prop}
    (h : Component.compile source declarations = .ok c)
    (hd : ∀ d ∈ declarations, ∀ callback, d.callback = some callback → p callback) :
    c.template.EachCallback p := by
  obtain ⟨a, t, ht, -, rfl⟩ := Component.compile_eq_ok h
  exact Template.eachCallback_of_compile? ht hd

theorem Wrapper.eachCallback_of_compile {source : String} {w : Wrapper ω δ}
    {declarations : List (Declaration ω δ)} {p : Callback ω δ → Prop}
    (h : Wrapper.compile source declarations = .ok w)
    (hd : ∀ d ∈ declarations, ∀ callback, d.callback = some callback → p callback) :
    w.template.EachCallback p := by
  obtain ⟨a, t, content, ht, -, rfl⟩ := Wrapper.compile_eq_ok h
  exact Template.eachCallback_of_compile? ht hd

end HtmlTemplate
