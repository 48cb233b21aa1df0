import HtmlTemplate.Proofs.Document.Numbering
import HtmlTemplate.Proofs.Markup.Pending
import HtmlTemplate.Proofs.Template.Pieces

/-!
# The markers of a page

Most texts of a page have no callback, and leave nothing but their HTML in the template. What is
left of the others is a plain marker each, whatever HTML stands around it: a callback that came to
stand between attributes would be refused.

Results:
1. `callbacksOf_parts`: the callbacks among the parts are those of the page, in document order.
2. `PlainOnly.foldlM`: a pass adds a plain marker for each callback, and no element.
3. `template_of_build`: the markers, elements and nesting of a page that is built.
-/

namespace HtmlTemplate

variable {ω δ : Type}

namespace Document

open DocumentPart

/-! ## 1. Callbacks -/

/-- The callbacks of the page, in document order. -/
def callbacks (d : Document ω δ) : List (δ → Render ω Unit) :=
  (d.head.title.toList ++ d.head.style.toList ++ d.noscript.toList ++ d.body).filterMap
    Fragment.dynamic

/-- The callbacks among the parts. -/
def callbacksOf (parts : List (DocumentPart ω δ)) : List (δ → Render ω Unit) :=
  (parts.filterMap fragment?).filterMap Fragment.dynamic

theorem callbacksOf_append (parts parts' : List (DocumentPart ω δ)) :
    callbacksOf (parts ++ parts') = callbacksOf parts ++ callbacksOf parts' := by
  simp [callbacksOf]

theorem callbacksOf_fragment (f : Fragment ω δ) (parts : List (DocumentPart ω δ)) :
    callbacksOf (.fragment f :: parts) = f.dynamic.toList ++ callbacksOf parts := by
  cases hf : f.dynamic <;> simp [callbacksOf, fragment?, hf]

theorem callbacksOf_flatMap {α : Type} {f : α → List (DocumentPart ω δ)}
    (h : ∀ a, callbacksOf (f a) = []) (as : List α) : callbacksOf (as.flatMap f) = [] := by
  induction as with
  | nil => rfl
  | cons a as ih => rw [List.flatMap_cons, callbacksOf_append, h, ih, List.append_nil]

theorem callbacksOf_between (before : String) (f? : Option (Fragment ω δ)) (after : String) :
    callbacksOf (between before f? after) = f?.toList.filterMap Fragment.dynamic := by
  cases f? <;> rfl

theorem callbacksOf_fragments (fs : List (Fragment ω δ)) :
    callbacksOf (fs.map DocumentPart.fragment) = fs.filterMap Fragment.dynamic := by
  have hsome : (fragment? ∘ DocumentPart.fragment : Fragment ω δ → Option (Fragment ω δ)) = some :=
    rfl
  rw [callbacksOf, List.filterMap_map, hsome, List.filterMap_some]

theorem callbacksOf_metadata (m : Metadata) :
    callbacksOf (m.parts : List (DocumentPart ω δ)) = [] := by
  have hnone : ∀ (name : String) (content? : Option String),
      callbacksOf (DocumentPart.metadata name content? : List (DocumentPart ω δ)) = [] := by
    intro name content?
    cases content? <;> rfl
  simp only [Metadata.parts, callbacksOf_append, hnone, List.append_nil]

theorem callbacksOf_parts (d : Document ω δ) : callbacksOf d.parts = d.callbacks := by
  have hlinks := callbacksOf_flatMap (fun l => (rfl : callbacksOf (link (ω := ω) (δ := δ) l) = []))
  have hscripts :=
    callbacksOf_flatMap (fun s => (rfl : callbacksOf (script (ω := ω) (δ := δ) s) = []))
  have hattributes :=
    callbacksOf_flatMap (fun p => (rfl : callbacksOf (bodyAttribute (ω := ω) (δ := δ) p) = []))
  have hmarkup : ∀ html, callbacksOf [(markup html : DocumentPart ω δ)] = [] := fun _ => rfl
  have hfront : ∀ before after, callbacksOf [markup before, text d.lang,
      (markup after : DocumentPart ω δ)] = [] := fun _ _ => rfl
  simp only [parts, Head.parts, callbacks, callbacksOf_append, callbacksOf_between,
    callbacksOf_metadata, callbacksOf_fragments, hlinks, hscripts, hattributes, hmarkup, hfront,
    List.filterMap_append, List.append_nil, List.nil_append, List.append_assoc]

end Document

/-! ## 2. Plain markers only -/

namespace Assembly

/-- The markers so far are plain ones with the given callbacks, and there is no element. -/
structure PlainOnly (runs : List (δ → Render ω Unit)) (a : Assembly ω δ) : Prop where
  actions : a.markers.toList.map Marker.action = runs.map Action.plain
  starts : a.reader.table.starts = []
  maxNesting : a.maxNesting = 0

namespace PlainOnly

variable {runs : List (δ → Render ω Unit)} {a b : Assembly ω δ}

theorem initial (counts : MarkerCounts) (declarations : List (Declaration ω δ)) :
    PlainOnly [] (Assembly.initial counts declarations) :=
  ⟨rfl, rfl, rfl⟩

theorem addBytes (h : PlainOnly runs a) {bytes : List UInt8} (hb : a.addBytes bytes = .ok b) :
    PlainOnly runs b := by
  obtain ⟨r, hr, rfl⟩ := addBytes_eq_ok hb
  have hstarts := a.reader.starts_feed a.surroundings bytes
  rw [hr] at hstarts
  exact ⟨h.actions, hstarts.trans h.starts, h.maxNesting⟩

/-- A plain token adds the marker of its callback, if it has one. -/
theorem placed (h : PlainOnly runs a) {d : Declaration ω δ} {run? : Option (δ → Render ω Unit)}
    (hd : d.callback = run?.map Callback.plain) (hp : Placed a d false b) :
    PlainOnly (runs ++ run?.toList) b := by
  cases hp with
  | plain run hc =>
    rw [hd, Option.map_eq_some_iff] at hc
    obtain ⟨_, rfl, hrun⟩ := hc
    cases hrun
    refine ⟨?_, h.starts, h.maxNesting⟩
    simp [addMarker, interrupt, h.actions]
  | attributes run hc =>
    rw [hd, Option.map_eq_some_iff] at hc
    obtain ⟨_, -, hrun⟩ := hc
    cases hrun
  | folded hc =>
    rw [hd, Option.map_eq_none_iff] at hc
    rw [hc, Option.toList_none, List.append_nil]
    exact ⟨h.actions, h.starts, h.maxNesting⟩

theorem addNamed (h : PlainOnly runs a) {d : Declaration ω δ} {rest : List (Declaration ω δ)}
    {run? : Option (δ → Render ω Unit)} (hd : a.declarations = d :: rest)
    (hc : d.callback = run?.map Callback.plain) {name : String} {start : Nat}
    (hb : a.addNamed name false start = .ok b) :
    PlainOnly (runs ++ run?.toList) b ∧ b.declarations = rest := by
  obtain ⟨d', rest', r, hd', -, -, hr, hp⟩ := addNamed_eq_ok hb
  rw [hd] at hd'
  cases hd'
  have hstarts := a.reader.starts_feed a.surroundings d.staticHtml.toUTF8.data.toList
  rw [hr] at hstarts
  constructor
  · refine PlainOnly.placed ?_ hc hp
    exact ⟨h.actions, hstarts.trans h.starts, h.maxNesting⟩
  · cases hp <;> rfl

open Document in
/-- A pass over the pieces of parts adds the markers of their callbacks. -/
theorem foldlM {number : Nat} {parts : List (DocumentPart ω δ)} {pieces : List Piece}
    (hs : Splits number parts pieces) (h : PlainOnly runs a)
    (hd : a.declarations = declarationsFrom number parts)
    (hb : pieces.foldlM addPiece a = .ok b) : PlainOnly (runs ++ callbacksOf parts) b := by
  induction hs generalizing runs a with
  | nil =>
    cases hb
    rwa [show callbacksOf ([] : List (DocumentPart ω δ)) = [] from rfl, List.append_nil]
  | markup _ ih =>
    rw [List.foldlM_append] at hb
    obtain ⟨a', ha', hb⟩ := exists_ok_of_bind hb
    rw [Assembly.foldlM_chars] at ha'
    have hplain := h.addBytes ha'
    obtain ⟨r, -, rfl⟩ := addBytes_eq_ok ha'
    exact ih hplain hd hb
  | @fragment number f t parts pieces hk _ ih =>
    obtain ⟨a', ha', hb⟩ := exists_ok_of_bind hb
    have hnamed : a.addNamed (markerName number) false t.start = .ok a' := by
      have htoken : a.addToken t = .ok a' := ha'
      rwa [addToken, hk] at htoken
    obtain ⟨hplain, hrest⟩ : PlainOnly (runs ++ f.dynamic.toList) a' ∧
        a'.declarations = declarationsFrom (number + 1) parts := h.addNamed hd rfl hnamed
    rw [callbacksOf_fragment, ← List.append_assoc]
    exact ih hplain hrest hb

end PlainOnly

end Assembly

/-! ## 3. A page that is built -/

/-- The template of a page has a plain marker for each callback, in document order, and neither
elements nor wrappers. -/
theorem Document.template_of_build {d : Document ω δ} {c : Component ω δ} (h : d.build = .ok c) :
    c.template.markers.toList.map Marker.action = d.callbacks.map Action.plain ∧
      c.template.elements = #[] ∧ c.maxNesting = 0 := by
  obtain ⟨a, t, hc, -, rfl⟩ := Component.compile_eq_ok h
  obtain ⟨counts, hfold, hfinish⟩ := compile?_eq_ok hc
  obtain ⟨-, -, -, rfl⟩ := Assembly.finish_eq_ok hfinish
  have hplain := Assembly.PlainOnly.foldlM (splits_parts d) (.initial counts _) rfl hfold
  rw [List.nil_append, callbacksOf_parts] at hplain
  refine ⟨hplain.actions, ?_, hplain.maxNesting⟩
  have hstarts : a.reader.table.starts = [] := hplain.starts
  exact Array.toList_eq_nil_iff.mp (List.map_eq_nil_iff.mp hstarts)

end HtmlTemplate
