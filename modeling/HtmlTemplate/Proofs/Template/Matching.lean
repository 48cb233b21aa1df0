import Mathlib.Data.List.Forall2
import HtmlTemplate.Proofs.Template.Pieces

/-!
# Declarations that match

Compiling does not run the callbacks, it only puts them at the markers. So it does the same with
two lists of declarations that differ in their callbacks only: both are refused with the same
error, or both are accepted, and then the templates differ in the callbacks of their markers only.
The callbacks may even be for different worlds.

Which callbacks belong to each other is a parameter: `q` relates the callbacks of the two lists,
and those of the two templates then.

Results:
1. `Template.Matches`, `Component.Matches`, `Wrapper.Matches`: what differs in callbacks only.
2. `Assembly.matches_addPiece`: each piece is added to both assemblies or to none.
3. `matches_compile`, `Wrapper.matches_compile`: compiled templates.
-/

namespace HtmlTemplate

variable {ω' ω δ' δ α' α β' β : Type} {q : Callback ω' δ' → Callback ω δ → Prop}

/-! ## 1. What differs in callbacks only -/

/-- The declarations differ in their callbacks only, which belong to each other. -/
structure Declaration.Matches (q : Callback ω' δ' → Callback ω δ → Prop)
    (d' : Declaration ω' δ') (d : Declaration ω δ) : Prop where
  name_eq : d'.name = d.name
  staticText_eq : d'.staticText = d.staticText
  callback : Option.Rel q d'.callback d.callback

inductive Action.Matches (q : Callback ω' δ' → Callback ω δ → Prop) :
    Action ω' δ' → Action ω δ → Prop
  | plain {run' : δ' → Render ω' Unit} {run : δ → Render ω Unit} :
      q (.plain run') (.plain run) → Action.Matches q (.plain run') (.plain run)
  | attributes {run' : δ' → AttributeRender ω' Unit} {run : δ → AttributeRender ω Unit}
      (element : Nat) : q (.attributes run') (.attributes run) →
      Action.Matches q (.attributes run' element) (.attributes run element)
  | wrapperStart {run' : δ' → WrapperRender ω' Unit} {run : δ → WrapperRender ω Unit}
      (closing? : Option Nat) : q (.wrapper run') (.wrapper run) →
      Action.Matches q (.wrapperStart run' closing?) (.wrapperStart run closing?)
  | wrapperEnd (opening : Nat) : Action.Matches q (.wrapperEnd opening) (.wrapperEnd opening)

structure Marker.Matches (q : Callback ω' δ' → Callback ω δ → Prop) (m' : Marker ω' δ')
    (m : Marker ω δ) : Prop where
  name_eq : m'.name = m.name
  span_eq : m'.span = m.span
  action : m'.action.Matches q m.action

/-- An action matches itself, if its callback belongs to itself. -/
theorem Action.matches_refl {q : Callback ω δ → Callback ω δ → Prop}
    (hq : ∀ callback, q callback callback) (action : Action ω δ) : action.Matches q action := by
  cases action with
  | plain run => exact .plain (hq _)
  | attributes run element => exact .attributes element (hq _)
  | wrapperStart run closing? => exact .wrapperStart closing? (hq _)
  | wrapperEnd opening => exact .wrapperEnd opening

theorem Marker.Matches.position_eq {m' : Marker ω' δ'} {m : Marker ω δ} (h : m'.Matches q m) :
    m'.position = m.position :=
  congrArg Span.stop h.span_eq

theorem Marker.Matches.closedBy {m' : Marker ω' δ'} {m : Marker ω δ} (h : m'.Matches q m)
    (index : Nat) : (m'.closedBy index).Matches q (m.closedBy index) := by
  obtain ⟨name, span, action'⟩ := m'
  obtain ⟨_, _, action⟩ := m
  obtain ⟨rfl, rfl, haction⟩ := h
  cases haction with
  | wrapperStart closing? hq => exact ⟨rfl, rfl, .wrapperStart _ hq⟩
  | plain hq => exact ⟨rfl, rfl, .plain hq⟩
  | attributes element hq => exact ⟨rfl, rfl, .attributes element hq⟩
  | wrapperEnd opening => exact ⟨rfl, rfl, .wrapperEnd opening⟩

/-- There are as many markers, and they match one by one. -/
def MarkersMatch (q : Callback ω' δ' → Callback ω δ → Prop) (ms' : Array (Marker ω' δ'))
    (ms : Array (Marker ω δ)) : Prop :=
  ms'.size = ms.size ∧ ∀ i : Nat, Option.Rel (Marker.Matches q) ms'[i]? ms[i]?

structure Template.Matches (q : Callback ω' δ' → Callback ω δ → Prop) (t' : Template ω' δ')
    (t : Template ω δ) : Prop where
  html_eq : t'.html = t.html
  elements_eq : t'.elements = t.elements
  markers : MarkersMatch q t'.markers t.markers

structure Component.Matches (q : Callback ω' δ' → Callback ω δ → Prop) (c' : Component ω' δ')
    (c : Component ω δ) : Prop where
  template : c'.template.Matches q c.template
  part_eq : c'.part = c.part
  entry_eq : c'.entry = c.entry
  exit_eq : c'.exit = c.exit
  maxNesting_eq : c'.maxNesting = c.maxNesting

structure Wrapper.Matches (q : Callback ω' δ' → Callback ω δ → Prop) (w' : Wrapper ω' δ')
    (w : Wrapper ω δ) : Prop where
  template : w'.template.Matches q w.template
  content_eq : w'.content = w.content
  maxNesting_eq : w'.maxNesting = w.maxNesting

theorem Component.matches_refl {q : Callback ω δ → Callback ω δ → Prop}
    (hq : ∀ callback, q callback callback) (c : Component ω δ) : c.Matches q c := by
  refine ⟨⟨rfl, rfl, rfl, fun i => ?_⟩, rfl, rfl, rfl, rfl⟩
  cases c.template.markers[i]? with
  | none => exact .none
  | some m => exact .some ⟨rfl, rfl, m.action.matches_refl hq⟩

theorem Template.Matches.stop_eq {t' : Template ω' δ'} {t : Template ω δ} (h : t'.Matches q t) :
    t'.stop = t.stop := by
  rw [Template.stop, Template.stop, h.markers.1, h.html_eq]

namespace Wrapper.Matches

variable {w' : Wrapper ω' δ'} {w : Wrapper ω δ}

theorem preContent (h : w'.Matches q w) : w'.preContent.Matches q w.preContent :=
  ⟨h.template, rfl, rfl, h.content_eq, h.maxNesting_eq⟩

theorem postContent (h : w'.Matches q w) : w'.postContent.Matches q w.postContent :=
  ⟨h.template, rfl, h.content_eq, h.template.stop_eq, h.maxNesting_eq⟩

end Wrapper.Matches

/-! ## 2. Markers -/

namespace MarkersMatch

variable {ms' : Array (Marker ω' δ')} {ms : Array (Marker ω δ)}

theorem empty : MarkersMatch q (#[] : Array (Marker ω' δ')) (#[] : Array (Marker ω δ)) :=
  ⟨rfl, fun _ => .none⟩

theorem push (h : MarkersMatch q ms' ms) {m' : Marker ω' δ'} {m : Marker ω δ}
    (hm : m'.Matches q m) : MarkersMatch q (ms'.push m') (ms.push m) := by
  refine ⟨by rw [Array.size_push, Array.size_push, h.1], fun i => ?_⟩
  rw [Array.getElem?_push, Array.getElem?_push, h.1]
  split
  · exact .some hm
  · exact h.2 i

theorem closedBy (h : MarkersMatch q ms' ms) (opening closing : Nat) :
    MarkersMatch q (ms'.modify opening (·.closedBy closing))
      (ms.modify opening (·.closedBy closing)) := by
  refine ⟨by rw [Array.size_modify, Array.size_modify, h.1], fun i => ?_⟩
  rw [Array.getElem?_modify, Array.getElem?_modify]
  split
  · have hi := h.2 i
    generalize ms'[i]? = found' at hi ⊢
    generalize ms[i]? = found at hi ⊢
    cases hi with
    | none => exact .none
    | some hm => exact .some (hm.closedBy closing)
  · exact h.2 i

/-- The name of a marker is the same. -/
theorem name_eq (h : MarkersMatch q ms' ms) (i : Nat) :
    ms'[i]?.map Marker.name = ms[i]?.map Marker.name := by
  have hi := h.2 i
  generalize ms'[i]? = found' at hi ⊢
  generalize ms[i]? = found at hi ⊢
  cases hi with
  | none => rfl
  | some hm => exact congrArg some hm.name_eq

end MarkersMatch

/-! ## 3. Assemblies -/

/-- Both attempts are refused with the same error, or both succeed with results in the
relation. -/
inductive Concur (rel : α' → α → Prop) :
    Except TemplateError α' → Except TemplateError α → Prop
  | error (e : TemplateError) : Concur rel (.error e) (.error e)
  | ok {a' : α'} {a : α} : rel a' a → Concur rel (.ok a') (.ok a)

namespace Concur

variable {x' : Except TemplateError α'} {x : Except TemplateError α} {rel : α' → α → Prop}
  {last : β' → β → Prop}

theorem bind {f' : α' → Except TemplateError β'} {f : α → Except TemplateError β}
    (hx : Concur rel x' x) (hf : ∀ a' a, rel a' a → Concur last (f' a') (f a)) :
    Concur last (x' >>= f') (x >>= f) := by
  cases hx with
  | error e => exact .error e
  | ok h => exact hf _ _ h

/-- The same attempt is made first. -/
theorem both {y : Except TemplateError β} {f' : β → Except TemplateError α'}
    {f : β → Except TemplateError α} (h : ∀ b, Concur rel (f' b) (f b)) :
    Concur rel (y >>= f') (y >>= f) := by
  cases y with
  | error e => exact .error e
  | ok b => exact h b

/-- If one of the attempts succeeds, then so does the other. -/
theorem exists_ok {a : α} (h : Concur rel x' x) (hx : x = .ok a) :
    ∃ a', x' = .ok a' ∧ rel a' a := by
  cases h with
  | error e => cases hx
  | ok hrel =>
    cases hx
    exact ⟨_, rfl, hrel⟩

theorem of_ok {a' : α'} {a : α} (h : Concur rel x' x) (hx' : x' = .ok a') (hx : x = .ok a) :
    rel a' a := by
  cases h with
  | error e => cases hx
  | ok hrel =>
    cases hx'
    cases hx
    exact hrel

end Concur

namespace Assembly

/-- The assembly with other declarations and markers. -/
def recast (a : Assembly ω δ) (declarations : List (Declaration ω' δ'))
    (markers : Array (Marker ω' δ')) : Assembly ω' δ' :=
  { counts := a.counts
    declarations := declarations
    reader := a.reader
    html := a.html
    markers := markers
    openWrappers := a.openWrappers
    keptDepth := a.keptDepth
    maxNesting := a.maxNesting
    content := a.content
    seen := a.seen
    lastPosition := a.lastPosition }

/-- The assemblies differ in callbacks only. -/
inductive Matches (q : Callback ω' δ' → Callback ω δ → Prop) :
    Assembly ω' δ' → Assembly ω δ → Prop
  | recast {a : Assembly ω δ} {declarations' : List (Declaration ω' δ')}
      {markers' : Array (Marker ω' δ')} :
      List.Forall₂ (Declaration.Matches q) declarations' a.declarations →
      MarkersMatch q markers' a.markers → Matches q (a.recast declarations' markers') a

variable {a' : Assembly ω' δ'} {a : Assembly ω δ} {declarations' : List (Declaration ω' δ')}
  {markers' : Array (Marker ω' δ')}

theorem surroundings_recast (hm : MarkersMatch q markers' a.markers) :
    (a.recast declarations' markers').surroundings = a.surroundings :=
  congrArg (fun n => (⟨n, a.openWrappers.length⟩ : Surroundings)) hm.1

theorem place_recast (hm : MarkersMatch q markers' a.markers) :
    (a.recast declarations' markers').place = a.place :=
  congrArg (fun n => (⟨n, a.html.size⟩ : Place)) hm.1

theorem room_recast : (a.recast declarations' markers').room = a.room := rfl

theorem matches_addBytes (h : Matches q a' a) (bytes : List UInt8) :
    Concur (Matches q) (a'.addBytes bytes) (a.addBytes bytes) := by
  cases h with
  | @recast _ declarations' markers' hd hm =>
    rw [addBytes_eq, addBytes_eq, surroundings_recast hm, room_recast, show
      (a.recast declarations' markers').reader = a.reader from rfl]
    rcases a.reader.feed a.surroundings (bytes.take a.room) with ⟨reader, _ | name⟩
    · dsimp only
      split
      · exact .ok (.recast (a := { a with
          reader := reader
          html := a.html ++ bytes.toByteArray }) hd hm)
      · exact .error _
    · exact .error _

theorem matches_interrupt (h : Matches q a' a) : Matches q a'.interrupt a.interrupt := by
  cases h with
  | recast hd hm => exact .recast (a := a.interrupt) hd hm

theorem matches_addMarker (h : Matches q a' a) (name : String) {action' : Action ω' δ'}
    {action : Action ω δ} (haction : action'.Matches q action) :
    Matches q (a'.addMarker name action') (a.addMarker name action) := by
  cases h with
  | recast hd hm =>
    exact .recast (a := a.addMarker name action) hd (hm.push ⟨rfl, rfl, haction⟩)

/-! ## 4. Content and wrapper ends -/

theorem requireOutsideTag_eq (h : Matches q a' a) (start : Nat) :
    a'.requireOutsideTag start = a.requireOutsideTag start := by
  cases h with
  | recast hd hm => rfl

theorem matches_addContent (h : Matches q a' a) (start : Nat) :
    Concur (Matches q) (a'.addContent start) (a.addContent start) := by
  rw [addContent, addContent, requireOutsideTag_eq (matches_interrupt h)]
  refine .both fun _ => ?_
  cases h with
  | @recast _ declarations' markers' hd hm =>
    have hplace : (a.interrupt.recast declarations' markers').place = a.interrupt.place :=
      place_recast hm
    show Concur _ (if a.content.isSome then throw .duplicateContent else _)
      (if a.content.isSome then throw .duplicateContent else _)
    split
    · exact .error _
    · rw [show (a.recast declarations' markers').interrupt.place = a.interrupt.place from hplace]
      exact .ok (.recast (a := { a.interrupt with
        reader := a.interrupt.reader.markContent
        content := some a.interrupt.place }) hd hm)

theorem matches_closeWrapper (h : Matches q a' a) (opening : Nat) :
    Matches q (a'.closeWrapper opening) (a.closeWrapper opening) := by
  cases h with
  | @recast _ _ markers' hd hm =>
    have hend : Marker.Matches q
        ⟨(markers'[opening]?.map Marker.name).getD "", ⟨a.lastPosition, a.html.size⟩,
          .wrapperEnd opening⟩
        ⟨(a.markers[opening]?.map Marker.name).getD "", ⟨a.lastPosition, a.html.size⟩,
          .wrapperEnd opening⟩ :=
      ⟨congrArg (Option.getD · "") (hm.name_eq opening), rfl, .wrapperEnd opening⟩
    have hmarkers := (hm.push hend).closedBy opening a.markers.size
    rw [← hm.1] at hmarkers
    refine .recast (a := a.closeWrapper opening) hd ?_
    rw [closeWrapper, addMarker, ← hm.1]
    exact hmarkers

theorem matches_addWrapperEnd (h : Matches q a' a) (start : Nat) :
    Concur (Matches q) (a'.addWrapperEnd start) (a.addWrapperEnd start) := by
  rw [addWrapperEnd, addWrapperEnd, requireOutsideTag_eq (matches_interrupt h)]
  refine .both fun _ => ?_
  cases h with
  | @recast _ declarations' markers' hd hm =>
    dsimp only [Assembly.recast, interrupt]
    cases a.openWrappers with
    | nil => exact .error _
    | cons opening rest =>
      have hrest := Matches.recast (a := { a.interrupt with openWrappers := rest }) hd hm
      dsimp only
      cases a.reader.interrupt.crossedAt? rest.length with
      | some name => exact .error _
      | none =>
        cases opening with
        | none => exact .ok hrest
        | some index => exact .ok (matches_closeWrapper hrest index)

/-! ## 5. Named tokens -/

theorem matches_takeDeclaration (h : Matches q a' a) (name : String) :
    Concur (fun p' p => p'.1.Matches q p.1 ∧ Matches q p'.2 p.2) (a'.takeDeclaration name)
      (a.takeDeclaration name) := by
  cases h with
  | @recast _ declarations' markers' hd hm =>
    dsimp only [takeDeclaration, Assembly.recast]
    split
    · exact .error _
    · generalize a.declarations = declarations at hd
      cases hd with
      | nil => exact .error _
      | @cons d' d rest' rest hfirst hrest =>
        simp only [hfirst.name_eq]
        split
        · exact .error _
        · exact .ok ⟨hfirst, .recast (a := { a with
            declarations := rest
            seen := name :: a.seen }) hrest hm⟩

theorem plainKind_eq (h : Matches q a' a) (name : String) :
    a'.plainKind name = a.plainKind name := by
  cases h with
  | recast hd hm => rfl

theorem matches_openWrapper (h : Matches q a' a) (name : String) {run' : δ' → WrapperRender ω' Unit}
    {run : δ → WrapperRender ω Unit} (hq : q (.wrapper run') (.wrapper run)) :
    Matches q (a'.openWrapper name run') (a.openWrapper name run) := by
  cases h with
  | @recast _ declarations' markers' hd hm =>
    have hsize : (a.recast declarations' markers').markers.size = a.markers.size := hm.1
    rw [openWrapper, hsize]
    exact .recast (a := a.openWrapper name run) hd (hm.push ⟨rfl, rfl, .wrapperStart none hq⟩)

section Named

-- Callbacks that belong to each other are of the same kind.
variable (hkind : ∀ callback' callback, q callback' callback → callback'.kind = callback.kind)
include hkind

theorem matches_addCallback (h : Matches q a' a) (name : String) (kind : MarkerKind)
    {callback' : Callback ω' δ'} {callback : Callback ω δ} (hq : q callback' callback) :
    Concur (Matches q) (a'.addCallback name kind callback') (a.addCallback name kind callback) := by
  have hsame := hkind _ _ hq
  cases callback' with
  | plain run' =>
    cases callback with
    | plain run =>
      cases kind with
      | plain => exact .ok (matches_addMarker h name (.plain hq))
      | attributes | wrapperStart | wrapperEnd => exact .error _
    | wrapper | attributes => cases hsame
  | wrapper run' =>
    cases callback with
    | wrapper run =>
      cases kind with
      | wrapperStart => exact .ok (matches_openWrapper h name hq)
      | plain | attributes | wrapperEnd => exact .error _
    | plain | attributes => cases hsame
  | attributes run' =>
    cases callback with
    | attributes run =>
      cases kind with
      | attributes =>
        cases h with
        | recast hd hm =>
          have hattached := Matches.recast
            (a := { a with reader := a.reader.attachMarker.1 }) hd hm
          exact .ok (matches_addMarker hattached name (.attributes a.reader.attachMarker.2 hq))
      | plain | wrapperStart | wrapperEnd => exact .error _
    | plain | wrapper => cases hsame

theorem matches_addNamed (h : Matches q a' a) (name : String) (isWrapper : Bool) (start : Nat) :
    Concur (Matches q) (a'.addNamed name isWrapper start) (a.addNamed name isWrapper start) := by
  refine (matches_takeDeclaration h name).bind ?_
  rintro ⟨⟨declared', text', callback'?⟩, a₁'⟩ ⟨⟨declared, text, callback?⟩, a₁⟩
    ⟨⟨hname, htext, hcallback⟩, h₁⟩
  cases hname
  cases htext
  refine (matches_addBytes h₁ _).bind fun a₂' a₂ h₂ => ?_
  have h₃ := matches_interrupt h₂
  -- What kind of marker it is depends on the tag reader only.
  simp only [requireOutsideTag_eq h₃, plainKind_eq h₃]
  cases isWrapper with
  | true =>
    refine .both fun _ => ?_
    cases hcallback with
    | some hq => exact matches_addCallback hkind h₃ name .wrapperStart hq
    | none =>
      cases h₂ with
      | @recast a₂ _ _ hd hm =>
        exact .ok (.recast (a := { a₂.interrupt with
          openWrappers := none :: a₂.openWrappers }) hd hm)
  | false =>
    refine .both fun kind => ?_
    cases hcallback with
    | some hq => exact matches_addCallback hkind h₃ name kind hq
    | none => exact .ok h₃

/-- A piece is added to both assemblies, or refused by both. -/
theorem matches_addPiece (h : Matches q a' a) (p : Piece) :
    Concur (Matches q) (a'.addPiece p) (a.addPiece p) := by
  cases p with
  | text c => exact matches_addBytes h _
  | token t =>
    obtain ⟨kind, start, stop⟩ := t
    cases kind with
    | content => exact matches_addContent h start
    | wrapperEnd => exact matches_addWrapperEnd h start
    | wrapperStart name => exact matches_addNamed hkind h name true start
    | plain name => exact matches_addNamed hkind h name false start

theorem matches_foldlM (h : Matches q a' a) (pieces : List Piece) :
    Concur (Matches q) (pieces.foldlM Assembly.addPiece a')
      (pieces.foldlM Assembly.addPiece a) := by
  induction pieces generalizing a' a with
  | nil => exact .ok h
  | cons p pieces ih => exact (matches_addPiece hkind h p).bind fun a₁' a₁ h₁ => ih h₁

end Named

theorem matches_finish (h : Matches q a' a) :
    Concur (Template.Matches q) a'.finish a.finish := by
  cases h with
  | @recast _ declarations' markers' hd hm =>
    show Concur _ (if a.openWrappers.isEmpty = true then _ else _)
      (if a.openWrappers.isEmpty = true then _ else _)
    split
    · dsimp only [Assembly.recast]
      cases a.reader.finish with
      | error name => exact .error _
      | ok elements =>
        generalize a.declarations = declarations at hd
        cases hd with
        | nil => exact .ok ⟨rfl, rfl, hm⟩
        | cons => exact .error _
    · exact .error _

end Assembly

/-! ## 6. Compiled templates -/

section Compiled

variable {declarations' : List (Declaration ω' δ')} {declarations : List (Declaration ω δ)}
  (hkind : ∀ callback' callback, q callback' callback → callback'.kind = callback.kind)
  (hd : List.Forall₂ (Declaration.Matches q) declarations' declarations)

include hd in
theorem map_name_eq : declarations'.map Declaration.name = declarations.map Declaration.name := by
  induction hd with
  | nil => rfl
  | cons hfirst _ ih => exact congrArg₂ List.cons hfirst.name_eq ih

include hkind hd

theorem matches_compile? (source : String) :
    Concur (fun p' p => p'.1.Matches q p.1 ∧ p'.2.Matches q p.2) (compile? source declarations')
      (compile? source declarations) := by
  simp only [compile?, map_name_eq hd, hd.length_eq]
  cases firstRepeated? [] (declarations.map Declaration.name) with
  | some name => exact .error _
  | none =>
    have hstart := Assembly.Matches.recast (q := q) (a := Assembly.atStart source declarations)
      hd .empty
    refine (Assembly.matches_foldlM hkind hstart _).bind fun a' a ha => ?_
    refine (Assembly.matches_finish ha).bind fun t' t ht => ?_
    exact .ok ⟨ha, ht⟩

/-- Both sources are refused with the same error, or the components differ in their callbacks
only. -/
theorem matches_compile (source : String) :
    Concur (Component.Matches q) (Component.compile source declarations')
      (Component.compile source declarations) := by
  refine (matches_compile? hkind hd source).bind ?_
  rintro ⟨a', t'⟩ ⟨a, t⟩ ⟨ha, ht⟩
  cases ha with
  | recast =>
    show Concur _ (if a.content.isSome = true then _ else _)
      (if a.content.isSome = true then _ else _)
    split
    · exact .error _
    · exact .ok ⟨ht, rfl, rfl, ht.stop_eq, rfl⟩

theorem Wrapper.matches_compile (source : String) :
    Concur (Wrapper.Matches q) (Wrapper.compile source declarations')
      (Wrapper.compile source declarations) := by
  refine (matches_compile? hkind hd source).bind ?_
  rintro ⟨a', t'⟩ ⟨a, t⟩ ⟨ha, ht⟩
  cases ha with
  | recast =>
    dsimp only [Assembly.recast]
    cases a.content with
    | none => exact .error _
    | some content => exact .ok ⟨ht, rfl, rfl⟩

end Compiled

end HtmlTemplate
