import HtmlTemplate.Proofs.Rendering.Running
import HtmlTemplate.Template.Token

/-!
# Outlines

The tokens of a source form a tree: what stands between a wrapper start and its
end are the children of the wrapper. An `Outline` is that tree. It is read off
the pieces of a source and the declarations alone, with no tags, offsets or
indices, and it is evaluated by recursion: this says what a template means.

An outline is a list of nodes. Each node holds the outline of the nodes behind
it, and a wrapper holds the outline of its children as well.

Results:
1. `ofSource?`: the outline of a source. `chars`: the characters of a text in it.
2. `eval`: what a template without a content marker does. `evalBefore`,
   `evalBehind`, `evalAround`: what the parts of a wrapper do.
3. `idle_eval`, `idle_evalBefore`, `idle_evalBehind`: nothing is done once the
   response is halted.
4. `forall_of_ofSource?`: the callbacks of an outline are those declared.
-/

namespace HtmlTemplate

open Render

variable {ω δ : Type}

inductive Outline (ω δ : Type) where
  /-- No node is left. -/
  | stop
  /-- A character of text, or the static text of a declaration. -/
  | text (html : String) (rest : Outline ω δ)
  | content (rest : Outline ω δ)
  | plain (run : δ → Render ω Unit) (rest : Outline ω δ)
  | attributes (run : δ → AttributeRender ω Unit) (rest : Outline ω δ)
  | wrapper (run : δ → WrapperRender ω Unit) (inside rest : Outline ω δ)
  /-- A wrapper without a callback. -/
  | folded (inside rest : Outline ω δ)

namespace Outline

/-! ## 1. The outline of a source -/

/-- The node of a plain token that is declared by `d`, behind its static text. -/
def plainNode? (d : Declaration ω δ) (rest : Outline ω δ) : Option (Outline ω δ) :=
  match d.callback with
  | none => some rest
  | some (.plain run) => some (.plain run rest)
  | some (.attributes run) => some (.attributes run rest)
  | some (.wrapper _) => none

/-- The node of a wrapper start that is declared by `d`, behind its static text. -/
def wrapperNode? (d : Declaration ω δ) (inside rest : Outline ω δ) : Option (Outline ω δ) :=
  match d.callback with
  | none => some (.folded inside rest)
  | some (.wrapper run) => some (.wrapper run inside rest)
  | some (.plain _) => none
  | some (.attributes _) => none

/-- Reads pieces, of which each named token uses up the next declaration: the
nodes up to the first wrapper end that has no start among the pieces, and the
nodes behind each of these ends. -/
def parse : List Piece → List (Declaration ω δ) → Option (Outline ω δ × List (Outline ω δ))
  | [], [] => some (.stop, [])
  | [], _ :: _ => none
  | .text c :: pieces, ds => do
    let (o, outer) ← parse pieces ds
    return (.text (String.singleton c) o, outer)
  | .token t :: pieces, ds =>
    match t.kind, ds with
    | .content, ds => do
      let (o, outer) ← parse pieces ds
      return (.content o, outer)
    | .wrapperEnd, ds => do
      let (o, outer) ← parse pieces ds
      return (.stop, o :: outer)
    | .plain name, d :: ds =>
      if d.name = name then do
        let (rest, outer) ← parse pieces ds
        let o ← plainNode? d rest
        return (.text d.staticHtml o, outer)
      else none
    | .wrapperStart name, d :: ds =>
      if d.name = name then do
        match ← parse pieces ds with
        | (_, []) => none
        | (inside, rest :: outer) =>
          let o ← wrapperNode? d inside rest
          return (.text d.staticHtml o, outer)
      else none
    | .plain _, [] => none
    | .wrapperStart _, [] => none

/-- The outline of a source in which every wrapper end has a start and every
wrapper start an end. -/
def ofSource? (source : String) (declarations : List (Declaration ω δ)) : Option (Outline ω δ) :=
  match parse (pieces source) declarations with
  | some (o, []) => some o
  | _ => none

/-- The characters of a text in front of an outline. -/
def chars (html : String) (rest : Outline ω δ) : Outline ω δ :=
  html.toList.foldr (fun c rest => .text (String.singleton c) rest) rest

theorem parse_chars {pieces : List Piece} {ds : List (Declaration ω δ)} {o : Outline ω δ}
    {outer : List (Outline ω δ)} (h : parse pieces ds = some (o, outer)) (html : String) :
    parse (html.toList.map Piece.text ++ pieces) ds = some (chars html o, outer) := by
  unfold chars
  induction html.toList with
  | nil => exact h
  | cons c cs ih =>
    rw [List.map_cons, List.cons_append, parse, ih]
    rfl

/-! ## 2. Evaluation -/

/-- Evaluates the children of a wrapper and its endings, as its callback has asked for. -/
def evalScope (scope : WrapperScope ω) (inside : Render ω Unit) : Render ω Unit := do
  unless scope.skipContent do inside
  runEndings scope.endings

/-- Evaluates a wrapper with the callback `run` around its children. -/
def evalWrapper (run : WrapperRender ω Unit) (inside : Render ω Unit) : Render ω Unit := do
  let (_, scope) ← run.run {}
  evalScope scope inside

/-- Evaluates all nodes in order. No callback is run once the response is
halted; the endings that are left then are dropped by `runEndings`. -/
def eval (data : δ) : Outline ω δ → Render ω Unit
  | stop => pure ()
  | text html rest => do
    Render.writeRaw html
    rest.eval data
  | content rest => rest.eval data
  | plain run rest => do
    unlessHalted (run data)
    rest.eval data
  | attributes run rest => do
    unlessHalted (do let _ ← (run data).run {})
    rest.eval data
  | wrapper run inside rest => do
    unlessHalted (evalWrapper (run data) (inside.eval data))
    rest.eval data
  | folded inside rest => do
    inside.eval data
    rest.eval data

/-- Whether the content marker is among the nodes or inside one of them. -/
def hasContent : Outline ω δ → Bool
  | stop => false
  | text _ rest => rest.hasContent
  | content _ => true
  | plain _ rest => rest.hasContent
  | attributes _ rest => rest.hasContent
  | wrapper _ inside rest => inside.hasContent || rest.hasContent
  | folded inside rest => inside.hasContent || rest.hasContent

/-- Evaluates the nodes before the content marker. The endings of the wrappers
that the content marker stands in are not run but returned, those of the
innermost wrapper first. -/
def evalBefore (data : δ) : Outline ω δ → Render ω (List (Ending ω))
  | stop => pure []
  | text html rest => do
    Render.writeRaw html
    rest.evalBefore data
  | content _ => pure []
  | plain run rest => do
    unlessHalted (run data)
    rest.evalBefore data
  | attributes run rest => do
    unlessHalted (do let _ ← (run data).run {})
    rest.evalBefore data
  | wrapper run inside rest =>
    if inside.hasContent then do
      if ← Render.isHalted then return []
      let (_, scope) ← (run data).run {}
      let withheld ← inside.evalBefore data
      return withheld ++ scope.endings
    else do
      unlessHalted (evalWrapper (run data) (inside.eval data))
      rest.evalBefore data
  | folded inside rest =>
    if inside.hasContent then inside.evalBefore data
    else do
      inside.eval data
      rest.evalBefore data

/-- Evaluates the nodes behind the content marker. At the ends of the wrappers
that it stands in nothing is run. -/
def evalBehind (data : δ) : Outline ω δ → Render ω Unit
  | stop => pure ()
  | text _ rest => rest.evalBehind data
  | content rest => rest.eval data
  | plain _ rest => rest.evalBehind data
  | attributes _ rest => rest.evalBehind data
  | wrapper _ inside rest | folded inside rest =>
    if inside.hasContent then do
      inside.evalBehind data
      rest.eval data
    else rest.evalBehind data

/-- Evaluates a wrapper template around a payload: what stands before the content
marker, the payload, the endings withheld so far, what stands behind it. -/
def evalAround (data : δ) (payload : Render ω Unit) (o : Outline ω δ) : Render ω Unit := do
  let withheld ← o.evalBefore data
  unlessHalted payload
  runEndings withheld
  o.evalBehind data

/-- Characters are written as one string. -/
theorem run_chars {α : Type} {f : Outline ω δ → Render ω α}
    (hf : ∀ html rest, f (.text html rest) = (do Render.writeRaw html; f rest)) (html : String)
    (o : Outline ω δ) : f (chars html o) = (do Render.writeRaw html; f o) := by
  have hlist : ∀ cs : List Char,
      f (cs.foldr (fun c rest => .text (String.singleton c) rest) o) =
        (do Render.writeRaw (String.ofList cs); f o) := by
    intro cs
    induction cs with
    | nil => simp [writeRaw_empty]
    | cons c cs ih =>
      have hcons : String.ofList (c :: cs) = String.singleton c ++ String.ofList cs := by
        apply String.ext
        simp
      rw [List.foldr_cons, hf, ih, hcons, writeRaw_append, bind_assoc]
  simpa [chars] using hlist html.toList

theorem eval_chars (data : δ) (html : String) (o : Outline ω δ) :
    (chars html o).eval data = (do Render.writeRaw html; o.eval data) :=
  run_chars (fun _ _ => rfl) html o

theorem evalBefore_chars (data : δ) (html : String) (o : Outline ω δ) :
    (chars html o).evalBefore data = (do Render.writeRaw html; o.evalBefore data) :=
  run_chars (fun _ _ => rfl) html o

@[simp] theorem evalBehind_chars (data : δ) (html : String) (o : Outline ω δ) :
    (chars html o).evalBehind data = o.evalBehind data := by
  unfold chars
  induction html.toList with
  | nil => rfl
  | cons c cs ih => exact ih

@[simp] theorem hasContent_chars (html : String) (o : Outline ω δ) :
    (chars html o).hasContent = o.hasContent := by
  unfold chars
  induction html.toList with
  | nil => rfl
  | cons c cs ih => exact ih

/-! ## 3. Halted responses -/

theorem idle_evalScope (scope : WrapperScope ω) {inside : Render ω Unit} (h : Idle inside) :
    Idle (evalScope scope inside) := by
  unfold evalScope
  split
  · exact idle_runEndings _
  · exact idle_bind h fun _ => idle_runEndings _

theorem idle_eval (data : δ) (o : Outline ω δ) : Idle (o.eval data) := by
  induction o with
  | stop => exact idle_pure ()
  | text html rest ih => exact idle_bind (idle_writeRaw html) fun _ => ih
  | content rest ih => exact ih
  | plain run rest ih | attributes run rest ih | wrapper run inside rest _ ih =>
    exact idle_bind (idle_unlessHalted _) fun _ => ih
  | folded inside rest ihi ih => exact idle_bind ihi fun _ => ih

theorem idle_evalBefore (data : δ) (o : Outline ω δ) : Idle (o.evalBefore data) := by
  induction o with
  | stop => exact idle_pure []
  | text html rest ih => exact idle_bind (idle_writeRaw html) fun _ => ih
  | content rest => exact idle_pure []
  | plain run rest ih | attributes run rest ih => exact idle_bind (idle_unlessHalted _) fun _ => ih
  | wrapper run inside rest _ ih =>
    unfold evalBefore
    split
    · intro s hs
      exact ⟨[], by simp [hs]⟩
    · exact idle_bind (idle_unlessHalted _) fun _ => ih
  | folded inside rest ihi ih =>
    unfold evalBefore
    split
    · exact ihi
    · exact idle_bind (idle_eval data inside) fun _ => ih

theorem idle_evalBehind (data : δ) (o : Outline ω δ) : Idle (o.evalBehind data) := by
  induction o with
  | stop => exact idle_pure ()
  | text html rest ih | plain run rest ih | attributes run rest ih => exact ih
  | content rest => exact idle_eval data rest
  | wrapper run inside rest ihi ih | folded inside rest ihi ih =>
    unfold evalBehind
    split
    · exact idle_bind ihi fun _ => idle_eval data rest
    · exact ih

/-! ## 4. The callbacks of an outline -/

/-- All callbacks in start tags and at wrapper starts have the given properties. -/
def Forall (onTag : (δ → AttributeRender ω Unit) → Prop)
    (onWrapper : (δ → WrapperRender ω Unit) → Prop) : Outline ω δ → Prop
  | stop => True
  | text _ rest => rest.Forall onTag onWrapper
  | content rest => rest.Forall onTag onWrapper
  | plain _ rest => rest.Forall onTag onWrapper
  | attributes run rest => onTag run ∧ rest.Forall onTag onWrapper
  | wrapper run inside rest =>
    onWrapper run ∧ inside.Forall onTag onWrapper ∧ rest.Forall onTag onWrapper
  | folded inside rest => inside.Forall onTag onWrapper ∧ rest.Forall onTag onWrapper

theorem Forall.imp {onTag onTag' : (δ → AttributeRender ω Unit) → Prop}
    {onWrapper onWrapper' : (δ → WrapperRender ω Unit) → Prop} {o : Outline ω δ}
    (htag : ∀ run, onTag run → onTag' run) (hwrapper : ∀ run, onWrapper run → onWrapper' run)
    (h : o.Forall onTag onWrapper) : o.Forall onTag' onWrapper' := by
  induction o with
  | stop => trivial
  | text _ rest ih | content rest ih | plain _ rest ih => exact ih h
  | attributes run rest ih => exact ⟨htag run h.1, ih h.2⟩
  | wrapper run inside rest ihi ih => exact ⟨hwrapper run h.1, ihi h.2.1, ih h.2.2⟩
  | folded inside rest ihi ih => exact ⟨ihi h.1, ih h.2⟩

section Parse

variable {onTag : (δ → AttributeRender ω Unit) → Prop}
  {onWrapper : (δ → WrapperRender ω Unit) → Prop}

/-- The callback of the declaration has the property that fits its kind. -/
def Declared (onTag : (δ → AttributeRender ω Unit) → Prop)
    (onWrapper : (δ → WrapperRender ω Unit) → Prop) (d : Declaration ω δ) : Prop :=
  (∀ run, d.callback = some (.attributes run) → onTag run) ∧
    ∀ run, d.callback = some (.wrapper run) → onWrapper run

theorem forall_of_plainNode? {d : Declaration ω δ} {rest o : Outline ω δ}
    (hd : Declared onTag onWrapper d) (h : plainNode? d rest = some o)
    (hrest : rest.Forall onTag onWrapper) : o.Forall onTag onWrapper := by
  unfold plainNode? at h
  split at h
  · cases h
    exact hrest
  · cases h
    exact hrest
  · next run hc =>
    cases h
    exact ⟨hd.1 run hc, hrest⟩
  · cases h

theorem forall_of_wrapperNode? {d : Declaration ω δ} {inside rest o : Outline ω δ}
    (hd : Declared onTag onWrapper d) (h : wrapperNode? d inside rest = some o)
    (hinside : inside.Forall onTag onWrapper) (hrest : rest.Forall onTag onWrapper) :
    o.Forall onTag onWrapper := by
  unfold wrapperNode? at h
  split at h
  · cases h
    exact ⟨hinside, hrest⟩
  · next run hc =>
    cases h
    exact ⟨hd.2 run hc, hinside, hrest⟩
  · cases h
  · cases h

/-- The callbacks in what is read from pieces are those of the declarations. -/
theorem forall_of_parse {pieces : List Piece} {ds : List (Declaration ω δ)} {o : Outline ω δ}
    {os : List (Outline ω δ)} (hds : ∀ d ∈ ds, Declared onTag onWrapper d)
    (h : parse pieces ds = some (o, os)) :
    o.Forall onTag onWrapper ∧ ∀ o' ∈ os, o'.Forall onTag onWrapper := by
  fun_induction parse pieces ds generalizing o os with
  | case1 =>
    cases h
    exact ⟨trivial, fun _ h => absurd h List.not_mem_nil⟩
  | case3 c pieces ds ih | case4 t pieces ds _ ih =>
    obtain ⟨⟨o', os'⟩, hp, h⟩ := Option.bind_eq_some_iff.mp h
    cases h
    obtain ⟨ho, hos⟩ := ih hds hp
    exact ⟨ho, hos⟩
  | case5 t pieces ds _ ih =>
    obtain ⟨⟨o', os'⟩, hp, h⟩ := Option.bind_eq_some_iff.mp h
    cases h
    exact ⟨trivial, List.forall_mem_cons.mpr (ih hds hp)⟩
  | case6 t pieces d ds _ ih =>
    obtain ⟨⟨rest, os'⟩, hp, h⟩ := Option.bind_eq_some_iff.mp h
    obtain ⟨o', hnode, h⟩ := Option.bind_eq_some_iff.mp h
    cases h
    obtain ⟨hd, hds⟩ := List.forall_mem_cons.mp hds
    obtain ⟨hrest, hos⟩ := ih hds hp
    have ho := forall_of_plainNode? hd hnode hrest
    exact ⟨ho, hos⟩
  | case8 t pieces d ds _ ih =>
    -- A wrapper start takes its children and what stands behind its end.
    obtain ⟨⟨inside, os'⟩, hp, h⟩ := Option.bind_eq_some_iff.mp h
    obtain ⟨hd, hds⟩ := List.forall_mem_cons.mp hds
    obtain ⟨hinside, hos⟩ := ih hds hp
    cases os' with
    | nil => cases h
    | cons rest outer =>
      obtain ⟨o', hnode, h⟩ := Option.bind_eq_some_iff.mp h
      cases h
      obtain ⟨hrest, houter⟩ := List.forall_mem_cons.mp hos
      have ho := forall_of_wrapperNode? hd hnode hinside hrest
      exact ⟨ho, houter⟩
  | case2 | case7 | case9 | case10 | case11 => cases h

theorem forall_of_ofSource? {source : String} {ds : List (Declaration ω δ)} {o : Outline ω δ}
    (hds : ∀ d ∈ ds, Declared onTag onWrapper d) (h : ofSource? source ds = some o) :
    o.Forall onTag onWrapper := by
  unfold ofSource? at h
  split at h
  · next hp =>
    cases h
    exact (forall_of_parse hds hp).1
  · cases h

end Parse

end Outline

end HtmlTemplate
