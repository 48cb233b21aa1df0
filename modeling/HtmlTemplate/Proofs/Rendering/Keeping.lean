import HtmlTemplate.Proofs.Rendering.Api
import HtmlTemplate.Proofs.Rendering.Sharing

/-!
# Renders inside of renders keep the fields

Callbacks, endings and payloads are made of the functions for callbacks. On the fields, each
of these functions does what it does with scopes: a component or wrapper that is rendered
inside of a callback leaves the fields as they are and does not depend on them, and `wrap`
changes them as it changes the scope of the callback. So this holds of everything that is made
of these functions, for renders inside of renders to any depth.

Results:
1. `Component.keeps_run`, `Component.keeps_render`, `Wrapper.keeps_render`: renders.
2. `FieldRender.wrap_run`: what `wrap` does to the fields.
3. `Render.RunsAs.keeps`, `WrapperRender.RunsAs.fits`, `AttributeRender.RunsAs.eq_onFields`:
   whatever is made of the functions for callbacks.
4. `nested_renders_keep_fields`.
-/

namespace HtmlTemplate

open Render FieldRender

variable {ω δ α β : Type} {code : EndingCode ω} {calls : MarkerCode ω δ}

/-! ## 1. Renders -/

/-- Whatever the fields are, the first computation does what the second one does, returns the
same, and leaves the fields as they are. -/
def FieldRender.Keeps (x' : FieldRender ω α) (x : Render ω α) : Prop :=
  ∀ (fields : Fields ω) (s : Session ω),
    x' (s.within fields) = (x s).map fun p => (p.1, p.2.within fields)

theorem FieldRender.keeps_besideFields (x : Render ω α) : x.besideFields.Keeps x := fun _ _ => rfl

theorem FieldRender.Keeps.eq_besideFields {x' : FieldRender ω α} {x : Render ω α}
    (h : x'.Keeps x) : x' = x.besideFields :=
  funext fun s => h s.world.fields s.bare

theorem FieldRender.Keeps.fields_eq {x' : FieldRender ω α} {x : Render ω α} (h : x'.Keeps x)
    {s s' : Session (Fielded ω)} {a : α} (hrun : x' s = .ok (a, s')) :
    s'.world.fields = s.world.fields := by
  have hkept : (x s.bare).map (fun p => (p.1, p.2.within s.world.fields)) = .ok (a, s') :=
    (h s.world.fields s.bare).symm.trans hrun
  cases hx : x s.bare with
  | error f => rw [hx] at hkept; cases hkept
  | ok p => rw [hx] at hkept; cases hkept; rfl

theorem FieldRender.keeps_of_follows {x' : FieldRender ω α} {x : Render ω α}
    (h : ∀ fields, Follows fields x' x fun a' a fields' => a' = a ∧ fields' = fields) :
    x'.Keeps x := by
  intro fields s
  cases hx : x s with
  | error f => exact (h fields).fault s f hx
  | ok p =>
    obtain ⟨a', fields', ⟨rfl, rfl⟩, hx'⟩ := (h fields).result s p.1 p.2 hx
    exact hx'

theorem FieldRender.Keeps.follows {x' : FieldRender ω α} {x : Render ω α} (h : x'.Keeps x)
    (fields : Fields ω) : Follows fields x' x fun a' a fields' => a' = a ∧ fields' = fields := by
  rw [h.eq_besideFields]
  exact (follows_besideFields fun _ _ _ _ => trivial).imp fun _ _ _ h => ⟨h.1, h.2.2⟩

theorem FieldRender.keeps_bind {x' : FieldRender ω α} {x : Render ω α} {f' : α → FieldRender ω β}
    {f : α → Render ω β} (hx : x'.Keeps x) (hf : ∀ a, (f' a).Keeps (f a)) :
    (x' >>= f').Keeps (x >>= f) := by
  rw [hx.eq_besideFields, funext fun a => (hf a).eq_besideFields, ← besideFields_bind]
  exact keeps_besideFields _

theorem FieldRender.keeps_runEndings {endings : List (Ending ω)}
    (h : ∀ ending ∈ endings, code.Fits ending) :
    FieldRender.Keeps (runEndings (endings.map code)) (runEndings endings) := by
  rw [runEndings_map h]
  exact keeps_besideFields _

namespace Component

variable {c : Component ω δ} {data : δ}

theorem keeps_run (ht : c.template.Fits code calls data) (place : Place) :
    (c.runOnFields code calls data place).Keeps (c.run data place) :=
  keeps_of_follows fun fields => (follows_run ht place fields).imp fun _ _ _ h => ⟨h.1, h.2.2⟩

/-- The endings that a run hands over run on the fields as they are known. -/
theorem each_run (ht : c.template.Fits code calls data) {place : Place} {s s' : Session ω}
    {outcome : Outcome ω} (hx : c.run data place s = .ok (outcome, s')) :
    ∀ ending ∈ outcome.carried, code.Fits ending := by
  obtain ⟨_, _, ⟨-, heach, -⟩, -⟩ := (follows_run ht place {}).result s outcome s' hx
  exact heach

theorem keeps_render (ht : c.template.Fits code calls data) :
    (c.renderOnFields code calls data).Keeps (c.render data) := by
  refine keeps_of_follows fun fields => ?_
  unfold renderOnFields render
  refine follows_bind (follows_run ht c.entry fields) ?_
  rintro outcome' outcome _ ⟨rfl, heach, rfl⟩
  cases outcome' with
  | halted => exact follows_pure ⟨rfl, rfl⟩
  | finished carried | swallowed resume carried => exact (keeps_runEndings heach).follows _

end Component

namespace Wrapper

variable {w : Wrapper ω δ} {data : δ}

theorem keeps_renderPost (ht : w.template.Fits code calls data) (place : Place) :
    (w.renderPostOnFields code calls data place).Keeps (w.renderPost data place) :=
  keeps_bind (Component.keeps_run (c := w.postContent) ht place) fun _ _ _ => rfl

theorem keeps_render (ht : w.template.Fits code calls data) {inner : Render ω Unit}
    {inner' : FieldRender ω Unit} (hinner : inner'.Keeps inner) :
    (w.renderOnFields code calls data inner').Keeps (w.render data inner) := by
  have hpost : ∀ {carried : List (Ending ω)} (place : Place),
      (∀ ending ∈ carried, code.Fits ending) →
      FieldRender.Keeps
        (do runEndings (carried.map code); w.renderPostOnFields code calls data place)
        (do runEndings carried; w.renderPost data place) :=
    fun place hcarried => keeps_bind (keeps_runEndings hcarried) fun _ => keeps_renderPost ht place
  refine keeps_of_follows fun fields => ?_
  unfold renderOnFields render
  refine follows_bind (Component.follows_run (c := w.preContent) ht _ fields) ?_
  rintro outcome' outcome _ ⟨rfl, heach, rfl⟩
  cases outcome' with
  | halted => exact follows_pure ⟨rfl, rfl⟩
  | finished carried => exact (keeps_bind hinner fun _ => hpost w.content heach).follows _
  | swallowed resume carried => exact (hpost resume heach).follows _

end Wrapper

/-! ## 2. Wrapping -/

/-- The fields once the part of `w` before its content marker has been rendered by `wrap`. The
part behind it is registered as an ending, and behind it the endings carried over, the one that
runs first at the end, unless the response is halted. The content of the wrapper at hand is
dropped exactly if `w` has dropped its own. -/
def Fields.wrapped (fields : Fields ω) (w : Wrapper ω δ) (data : δ) : Outcome ω → Fields ω
  | .halted => fields
  | .finished carried =>
    { fields with frame := fields.frame ++ w.renderPost data w.content :: carried.reverse }
  | .swallowed resume carried =>
    { fields with
      frame := fields.frame ++ w.renderPost data resume :: carried.reverse
      skipContent := true }

theorem FieldRender.wrap_run {w : Wrapper ω δ} {data : δ} (ht : w.template.Fits code calls data)
    (fields : Fields ω) (s : Session ω) :
    FieldRender.wrap code calls w data (s.within fields) =
      (w.preContent.run data w.preContent.entry s).map fun p =>
        ((), p.2.within (fields.wrapped w data p.1)) := by
  have hrun := Component.keeps_run (c := w.preContent) ht w.preContent.entry fields s
  unfold FieldRender.wrap
  cases hx : w.preContent.run data w.preContent.entry s with
  | error f =>
    rw [hx] at hrun
    exact bind_of_error hrun
  | ok p =>
    rw [hx] at hrun
    rw [bind_of_ok hrun]
    obtain ⟨outcome, s'⟩ := p
    cases outcome <;> rfl

namespace WrapperRender

theorem onFields_addEnding (ending : Ending ω) :
    (addEnding ending).onFields = FieldRender.addEnding ending :=
  WrapperScope.part.onFields_modify fun fields => by simp [WrapperScope.part]

theorem onFields_skipContent :
    (skipContent : WrapperRender ω Unit).onFields = FieldRender.skipContent :=
  WrapperScope.part.onFields_modify fun fields => by simp [WrapperScope.part]

theorem onFields_deferPost (w : Wrapper ω δ) (data : δ) (place : Place)
    (carried : List (Ending ω)) :
    (deferPost w data place carried).onFields = FieldRender.deferPost w data place carried :=
  WrapperScope.part.onFields_modify fun fields => by simp [WrapperScope.part]

/-- `wrap` does to the fields what it does to the scope of the callback. -/
theorem onFields_wrap {w : Wrapper ω δ} {data : δ} (ht : w.template.Fits code calls data) :
    (wrap w data).onFields = FieldRender.wrap code calls w data := by
  have hrun := (Component.keeps_run (c := w.preContent) ht w.preContent.entry).eq_besideFields
  unfold FieldRender.wrap
  rw [hrun]
  refine (WrapperScope.part.onFields_bind _ _).trans ?_
  rw [WrapperScope.part.onFields_lift]
  refine congrArg (Bind.bind _) (funext fun outcome => ?_)
  cases outcome with
  | halted => exact WrapperScope.part.onFields_pure ()
  | finished carried => exact onFields_deferPost w data w.content carried
  | swallowed resume carried =>
    refine (WrapperScope.part.onFields_bind _ _).trans ?_
    exact congr (congrArg Bind.bind onFields_skipContent)
      (funext fun _ => onFields_deferPost w data resume carried)

end WrapperRender

/-! ## 3. Callbacks -/

namespace WrapperRender

theorem fits_lift {x : Render ω α} {x' : FieldRender ω α} (h : x'.Keeps x) :
    Fits code (StateT.lift x) x' where
  eq_onFields := h.eq_besideFields.trans (WrapperScope.part.onFields_lift x).symm
  endings scope s a scope' s' hscope hx := by
    obtain ⟨rfl, -⟩ := ok_of_lift hx
    exact hscope

theorem fits_bind {x : WrapperRender ω α} {x' : FieldRender ω α} {f : α → WrapperRender ω β}
    {f' : α → FieldRender ω β} (hx : x.Fits code x') (hf : ∀ a, (f a).Fits code (f' a)) :
    (x >>= f).Fits code (x' >>= f') where
  eq_onFields := by
    rw [hx.eq_onFields, funext fun a => (hf a).eq_onFields]
    exact (WrapperScope.part.onFields_bind x f).symm
  endings scope s b scope' s' hscope hrun := by
    obtain ⟨a, scope₁, s₁, hfirst, hrest⟩ := ok_of_bind hrun
    exact (hf a).endings scope₁ s₁ b scope' s' (hx.endings scope s a scope₁ s₁ hscope hfirst) hrest

theorem fits_addEnding {ending : Ending ω} (h : code.Fits ending) :
    (addEnding ending).Fits code (FieldRender.addEnding ending) where
  eq_onFields := (onFields_addEnding ending).symm
  endings scope s a scope' s' hscope hx := by
    cases hx
    exact List.forall_mem_cons.mpr ⟨h, hscope⟩

theorem fits_skipContent :
    (skipContent : WrapperRender ω Unit).Fits code FieldRender.skipContent where
  eq_onFields := onFields_skipContent.symm
  endings scope s a scope' s' hscope hx := by
    cases hx
    exact hscope

theorem fits_wrap {w : Wrapper ω δ} {data : δ} (ht : w.template.Fits code calls data)
    (hpost : ∀ place, code (w.renderPost data place) = w.renderPostOnFields code calls data place) :
    (wrap w data).Fits code (FieldRender.wrap code calls w data) where
  eq_onFields := (onFields_wrap ht).symm
  endings scope s a scope' s' hscope hx := by
    have hfits : ∀ place, code.Fits (w.renderPost data place) := fun place =>
      (hpost place).trans (Wrapper.keeps_renderPost ht place).eq_besideFields
    obtain ⟨outcome, hrun, ⟨-, rfl⟩ | ⟨place, -, hendings⟩⟩ := wrap_eq_ok hx
    · exact hscope
    · have hcarried := Component.each_run (c := w.preContent) ht hrun
      rw [hendings]
      exact List.forall_mem_append.mpr
        ⟨hcarried, List.forall_mem_cons.mpr ⟨hfits place, hscope⟩⟩

end WrapperRender

mutual

theorem Render.RunsAs.keeps {α : Type} {x : Render ω α} {x' : FieldRender ω α} :
    Render.RunsAs code x x' → x'.Keeps x
  | .call f => fun _ _ => rfl
  | .overflow => fun _ _ => rfl
  | .bind hx hf => keeps_bind hx.keeps fun a => (hf a).keeps
  | .insert data ht => Component.keeps_render (ht.fits data)
  | .insertWrapped data ht hinner => Wrapper.keeps_render (ht.fits data) hinner.keeps

theorem WrapperRender.RunsAs.fits {α : Type} {x : WrapperRender ω α} {x' : FieldRender ω α} :
    WrapperRender.RunsAs code x x' → x.Fits code x'
  | .lift hx => WrapperRender.fits_lift hx.keeps
  | .bind hx hf => WrapperRender.fits_bind hx.fits fun a => (hf a).fits
  | .addEnding h => WrapperRender.fits_addEnding h.keeps.eq_besideFields
  | .skipContent => WrapperRender.fits_skipContent
  | .wrap data ht hpost => WrapperRender.fits_wrap (ht.fits data) hpost

theorem AttributeRender.RunsAs.eq_onFields {α : Type} {x : AttributeRender ω α}
    {x' : FieldRender ω α} : AttributeRender.RunsAs code x x' → x' = x.onFields
  | .lift hx => hx.keeps.eq_besideFields.trans (AttributeScope.part.onFields_lift _).symm
  | .bind hx hf => by
    rw [hx.eq_onFields, funext fun a => (hf a).eq_onFields]
    exact (AttributeScope.part.onFields_bind _ _).symm
  | .skipContent => rfl
  | .skipElement => rfl

theorem Callback.RunsAs.fits {δ : Type} {callback : Callback ω δ} {call : δ → FieldRender ω Unit} :
    Callback.RunsAs code callback call → ∀ data, callback.Fits code data (call data)
  | .plain h => fun data => (h data).keeps.eq_besideFields
  | .wrapper h => fun data => (h data).fits
  | .attributes h => fun data => (h data).eq_onFields

theorem Template.RunsAs.fits {δ : Type} {t : Template ω δ} {calls : MarkerCode ω δ} :
    Template.RunsAs code t calls → ∀ data, t.Fits code calls data
  | .intro h => fun data index m callback hm hc => (h index m callback hm hc).fits data

end

/-! ## 4. Every callback on the fields -/

/-- Every ending runs as it is known. -/
def EndingCode.asKnown : EndingCode ω := fun ending => ending.besideFields

/-- What the callback does, with its scope in the fields. -/
def Callback.onFields (data : δ) : Callback ω δ → FieldRender ω Unit
  | .plain run => (run data).besideFields
  | .wrapper run => (run data).onFields
  | .attributes run => (run data).onFields

/-- What the callbacks of the template do, with their scopes in the fields. -/
def Template.onFields (t : Template ω δ) : MarkerCode ω δ := fun index data =>
  match t.markers[index]?.bind fun m => m.action.callback? with
  | some callback => callback.onFields data
  | none => pure ()

theorem Template.runsAs_onFields {t : Template ω δ} (h : t.EachCallback fun callback =>
    callback.RunsAs .asKnown fun data => callback.onFields data) :
    t.RunsAs .asKnown t.onFields := by
  refine .intro fun index m callback hm hc => ?_
  have heq : t.onFields index = fun data => callback.onFields data := by
    funext data
    simp [Template.onFields, hm, hc]
  rw [heq]
  exact h index m callback hm hc

mutual

theorem Render.UsesApi.runsAs {α : Type} {x : Render ω α} :
    Render.UsesApi x → x.RunsAs .asKnown x.besideFields
  | .call f => .call f
  | .overflow => .overflow
  | .bind hx hf => by
    rw [besideFields_bind]
    exact .bind hx.runsAs fun a => (hf a).runsAs
  | .insert data h hd => by
    have ht := Template.runsAs_onFields
      (Component.eachCallback_of_compile h fun d hmem => (hd d hmem).runsAs)
    rw [← (Component.keeps_render (ht.fits data)).eq_besideFields]
    exact .insert data ht
  | .insertBefore data h hd => by
    have ht := Template.runsAs_onFields
      (Wrapper.eachCallback_of_compile h fun d hmem => (hd d hmem).runsAs)
    rw [← (Component.keeps_render (ht.fits data)).eq_besideFields]
    exact .insert data ht
  | .insertBehind data h hd => by
    have ht := Template.runsAs_onFields
      (Wrapper.eachCallback_of_compile h fun d hmem => (hd d hmem).runsAs)
    rw [← (Component.keeps_render (ht.fits data)).eq_besideFields]
    exact .insert data ht
  | .insertWrapped data h hd hpayload => by
    have ht := Template.runsAs_onFields
      (Wrapper.eachCallback_of_compile h fun d hmem => (hd d hmem).runsAs)
    rw [← (Wrapper.keeps_render (ht.fits data) hpayload.runsAs.keeps).eq_besideFields]
    exact .insertWrapped data ht hpayload.runsAs

theorem WrapperRender.UsesApi.runsAs {α : Type} {x : WrapperRender ω α} :
    WrapperRender.UsesApi x → x.RunsAs .asKnown x.onFields
  | .lift hx => by
    rw [WrapperRender.onFields, ScopePart.onFields_lift]
    exact .lift hx.runsAs
  | .bind hx hf => by
    rw [WrapperRender.onFields, ScopePart.onFields_bind]
    exact .bind hx.runsAs fun a => (hf a).runsAs
  | .addEnding h => by
    rw [WrapperRender.onFields_addEnding]
    exact .addEnding h.runsAs
  | .skipContent => by
    rw [WrapperRender.onFields_skipContent]
    exact .skipContent
  | .wrap data h hd => by
    have ht := Template.runsAs_onFields
      (Wrapper.eachCallback_of_compile h fun d hmem => (hd d hmem).runsAs)
    rw [WrapperRender.onFields_wrap (ht.fits data)]
    exact .wrap data ht fun place =>
      (Wrapper.keeps_renderPost (ht.fits data) place).eq_besideFields.symm

theorem AttributeRender.UsesApi.runsAs {α : Type} {x : AttributeRender ω α} :
    AttributeRender.UsesApi x → x.RunsAs .asKnown x.onFields
  | .lift hx => by
    rw [AttributeRender.onFields, ScopePart.onFields_lift]
    exact .lift hx.runsAs
  | .bind hx hf => by
    rw [AttributeRender.onFields, ScopePart.onFields_bind]
    exact .bind hx.runsAs fun a => (hf a).runsAs
  | .skipContent => .skipContent
  | .skipElement => .skipElement

theorem Declaration.UsesApi.runsAs {δ : Type} {d : Declaration ω δ} : Declaration.UsesApi d →
    ∀ callback, d.callback = some callback →
      callback.RunsAs .asKnown fun data => callback.onFields data
  | .fixed hc => fun callback h => by
    cases hc.symm.trans h
  | .plain hc hrun => fun callback h => by
    cases hc.symm.trans h
    exact .plain fun data => (hrun data).runsAs
  | .wrapper hc hrun => fun callback h => by
    cases hc.symm.trans h
    exact .wrapper fun data => (hrun data).runsAs
  | .attributes hc hrun => fun callback h => by
    cases hc.symm.trans h
    exact .attributes fun data => (hrun data).runsAs

end

/-! ## 5. Renders inside of callbacks -/

/-- A callback renders a component or a wrapper, or a part of a wrapper, or resumes the part
behind the content marker. The fields are afterwards as they were before, whatever the outcome,
and what is done and returned does not depend on them. `wrap` registers the part behind the
content marker and the endings carried over, and asks to drop the content exactly if the part
before the content marker has done so. It changes nothing else of the fields, and nothing at all
if the response is halted. -/
theorem nested_renders_keep_fields {δ' : Type} {c : Component ω δ} {calls : MarkerCode ω δ}
    (hc : c.template.RunsAs code calls) {w : Wrapper ω δ'} {calls' : MarkerCode ω δ'}
    (hw : w.template.RunsAs code calls') {inner : Render ω Unit} {inner' : FieldRender ω Unit}
    (hinner : inner.RunsAs code inner') (data : δ) (data' : δ') :
    (∀ place, (c.runOnFields code calls data place).Keeps (c.run data place)) ∧
      (c.renderOnFields code calls data).Keeps (c.render data) ∧
      (w.renderOnFields code calls' data' inner').Keeps (w.render data' inner) ∧
      (w.preContent.renderOnFields code calls' data').Keeps (w.preContent.render data') ∧
      (w.postContent.renderOnFields code calls' data').Keeps (w.postContent.render data') ∧
      (∀ place, (w.renderPostOnFields code calls' data' place).Keeps (w.renderPost data' place)) ∧
      ∀ (fields : Fields ω) (s : Session ω),
        FieldRender.wrap code calls' w data' (s.within fields) =
          (w.preContent.run data' w.preContent.entry s).map fun p =>
            ((), p.2.within (fields.wrapped w data' p.1)) :=
  ⟨fun place => Component.keeps_run (hc.fits data) place,
    Component.keeps_render (hc.fits data),
    Wrapper.keeps_render (hw.fits data') hinner.keeps,
    Component.keeps_render (c := w.preContent) (hw.fits data'),
    Component.keeps_render (c := w.postContent) (hw.fits data'),
    fun place => Wrapper.keeps_renderPost (hw.fits data') place,
    fun fields s => FieldRender.wrap_run (hw.fits data') fields s⟩

/-- The source `${{v}Y}}`. -/
def insertedSource : String := "$\x7b\x7bv\x7dY\x7d\x7d"

/-- Its declarations: the wrapper registers an ending. -/
def inserted : List (Declaration Unit Unit) :=
  [.wrapper "v" fun _ => WrapperRender.addEnding (Render.writeRaw "F")]

/-- The source `<s>${{deco}A${}B}}</s>`. -/
def decorationSource : String := "<s>$\x7b\x7bdeco\x7dA$\x7b\x7dB\x7d\x7d</s>"

/-- Its declarations: the content is dropped. -/
def decoration : List (Declaration Unit Unit) :=
  [.wrapper "deco" fun _ => do
    WrapperRender.skipContent
    WrapperRender.addEnding (Render.writeRaw "E")]

theorem nested_renders_keep_fields_of_decoration :
    ∃ c, Component.compile insertedSource inserted = .ok c ∧
      ∃ w, Wrapper.compile decorationSource decoration = .ok w ∧
        (c.renderOnFields .asKnown c.template.onFields ()).Keeps (c.render ()) ∧
        (w.renderOnFields .asKnown w.template.onFields ()
          (c.renderOnFields .asKnown c.template.onFields ())).Keeps (w.render () (c.render ())) ∧
        ∀ (fields : Fields Unit) (s : Session Unit),
          FieldRender.wrap .asKnown w.template.onFields w () (s.within fields) =
            (w.preContent.run () w.preContent.entry s).map fun p =>
              ((), p.2.within (fields.wrapped w () p.1)) := by
  have hinserted : ∀ d ∈ inserted, d.UsesApi := by
    intro d hmem
    cases List.mem_singleton.mp hmem
    exact .wrapper rfl fun _ => .addEnding (.call _)
  have hdecoration : ∀ d ∈ decoration, d.UsesApi := by
    intro d hmem
    cases List.mem_singleton.mp hmem
    exact .wrapper rfl fun _ => .bind .skipContent fun _ => .addEnding (.call _)
  obtain ⟨c, hcompiled⟩ := exists_eq_ok
    (x := Component.compile insertedSource inserted) (by decide +kernel)
  obtain ⟨w, hcompiled'⟩ := exists_eq_ok
    (x := Wrapper.compile decorationSource decoration) (by decide +kernel)
  have hc := Template.runsAs_onFields
    (Component.eachCallback_of_compile hcompiled fun d hmem => (hinserted d hmem).runsAs)
  have hw := Template.runsAs_onFields
    (Wrapper.eachCallback_of_compile hcompiled' fun d hmem => (hdecoration d hmem).runsAs)
  obtain ⟨-, hrender, haround, -, -, -, hwrap⟩ :=
    nested_renders_keep_fields hc hw (.insert () hc) () ()
  exact ⟨c, hcompiled, w, hcompiled', hrender, haround, hwrap⟩

/-- An ending stands in the frame, and an element is to be dropped. The part behind the content
marker and the ending that is carried over join the ending, and the content is to be dropped. -/
example :
    ((Wrapper.compile decorationSource decoration).toOption.bind fun w =>
      (FieldRender.wrap .asKnown w.template.onFields w () ((Session.fresh ()).within
        { frame := [Render.writeRaw "D"], skipElement := true })).toOption.map fun p =>
          (p.2.world.fields.frame.length, p.2.world.fields.skipContent,
            p.2.world.fields.skipElement, p.2.response.output)) =
      some (3, true, true, "<s>".toUTF8) := by
  decide +kernel

end HtmlTemplate
