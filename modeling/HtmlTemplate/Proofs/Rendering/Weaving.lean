import HtmlTemplate.Proofs.Rendering.Insertions
import HtmlTemplate.Proofs.Rendering.Traces
import HtmlTemplate.Proofs.Template.Literals
import HtmlTemplate.Proofs.Template.Undisturbed

/-!
# Insertions keep the tags

If nothing is dropped, then a render goes from marker to marker, and its output is woven of the
literal bytes and of what is inserted at the markers. Where no token of the source has moved the
lexer, what is inserted is passed over by a lexer that reads the output. So before each literal
byte this lexer is as the lexer was before the same byte when the source was compiled: dynamic
text opens and closes no tag, whatever it is.

Results:
1. `Component.Weaves`, `Component.RendersAs`: the segments that the output of a render is woven of.
2. `Woven.step`, `Transition.woven`: a step over a marker.
3. `insertions_keep_tags`: how a lexer reads the output of a compiled component.
-/

namespace HtmlTemplate

open Markup Render

variable {ω δ : Type}

/-! ## 1. Segments -/

/-- A part of the output of a render. -/
inductive Segment where
  /-- Literal bytes. -/
  | literal (span : Span)
  /-- What has been inserted at a marker. -/
  | inserted (bytes : ByteArray)

namespace Segment

/-- The bytes of the segment, of a template with these literal bytes. -/
def bytes (html : ByteArray) : Segment → List UInt8
  | literal span => (html.extract span.start span.stop).data.toList
  | inserted bytes => bytes.data.toList

/-- The bytes of the segments, one after the other. -/
def output (html : ByteArray) (segments : List Segment) : List UInt8 :=
  segments.flatMap (bytes html)

theorem output_append (html : ByteArray) (front back : List Segment) :
    output html (front ++ back) = output html front ++ output html back :=
  List.flatMap_append

theorem toByteArray_output_append (html : ByteArray) (front : List Segment) (x : Segment) :
    (output html (front ++ [x])).toByteArray =
      (output html front).toByteArray ++ (x.bytes html).toByteArray := by
  rw [output_append, List.toByteArray_append]
  simp [output]

/-- The literal bytes that the segment stems from. -/
def span? : Segment → Option Span
  | literal span => some span
  | inserted _ => none

/-- The lexer `l`, which stands before the segment, reads it as it was read before: before the
literal byte at `k` it is like the lexer with the index `k`, and it passes over what is inserted. -/
def ReadAlike (lexers : List TagLexer) (html : ByteArray) (l : TagLexer) : Segment → Prop
  | literal span => ∀ k, span.start ≤ k → k < span.stop → ∃ l', lexers[k]? = some l' ∧
      (l.after (html.extract span.start k).data.toList).Agrees l'
  | inserted bytes => l.PassesOver bytes.data.toList

/-- A fresh lexer reads each of the segments alike. -/
def AllReadAlike (lexers : List TagLexer) (html : ByteArray) (segments : List Segment) : Prop :=
  ∀ before x after, segments = before ++ x :: after →
    x.ReadAlike lexers html (TagLexer.after {} (output html before))

variable {lexers : List TagLexer} {html : ByteArray} {segments : List Segment} {x : Segment}

theorem AllReadAlike.append (h : AllReadAlike lexers html segments)
    (hx : x.ReadAlike lexers html (TagLexer.after {} (output html segments))) :
    AllReadAlike lexers html (segments ++ [x]) := by
  intro before y after heq
  rcases List.eq_nil_or_concat after with rfl | ⟨after, z, rfl⟩
  · obtain ⟨rfl, hlast⟩ := List.append_inj' heq rfl
    cases hlast
    exact hx
  · have hfront : segments ++ [x] = (before ++ y :: after) ++ [z] := by simpa using heq
    exact h before y after (List.append_inj' hfront rfl).1

/-- A lexer that is like the one before the literal byte at `start` is so behind it. -/
theorem agrees_after_extract {l : TagLexer} {start stop : Nat} (hle : start ≤ stop)
    (h : l.Agrees (TagLexer.after {} (html.extract 0 start).data.toList)) :
    (l.after (html.extract start stop).data.toList).Agrees
      (TagLexer.after {} (html.extract 0 stop).data.toList) := by
  rw [ByteArray.extract_eq_extract_append_extract start (Nat.zero_le _) hle,
    ByteArray.data_append, Array.toList_append, TagLexer.after_append]
  exact h.after _

/-- The segments have been put out up to the literal byte at `offset`: they are what has been
added to the output, all literal bytes up to there are among them, and they are read alike. -/
structure PutOut (lexers : List TagLexer) (html : ByteArray) (s₀ : Session ω)
    (segments : List Segment) (offset : Nat) (s : Session ω) : Prop where
  running : s.response.halted = false
  output_eq : s.response.output = s₀.response.output ++ (output html segments).toByteArray
  tile : Span.Tile (segments.filterMap span?) 0 offset
  alike : AllReadAlike lexers html segments
  agrees : (TagLexer.after {} (output html segments)).Agrees
    (TagLexer.after {} (html.extract 0 offset).data.toList)

namespace PutOut

variable {t : Template ω δ} {s₀ s s' : Session ω} {offset : Nat}

theorem start (h : s₀.response.halted = false) : PutOut lexers html s₀ [] 0 s₀ where
  running := h
  output_eq := by simp [output]
  tile := rfl
  alike := fun before x after heq => by simp at heq
  agrees := by
    have hnone : (html.extract 0 0).data.toList = [] := by simp
    rw [hnone]
    exact .refl _

/-- Literal bytes are written. -/
theorem literal (h : PutOut lexers t.html s₀ segments offset s) {stop : Nat}
    (hle : offset ≤ stop) (hstop : stop ≤ t.html.size)
    (hlexers : ∀ k, k < t.html.size →
      lexers[k]? = some (TagLexer.after {} (t.html.extract 0 k).data.toList)) :
    PutOut lexers t.html s₀ (segments ++ [.literal ⟨offset, stop⟩]) stop
      (t.wrote offset stop s) where
  running := by rw [Template.halted_wrote, h.running]
  output_eq := by
    have hwrote : (t.wrote offset stop s).response.output =
        s.response.output ++ t.html.extract offset stop := by
      simp [Template.wrote, Response.writeRawBytes, h.running]
    rw [hwrote, h.output_eq, toByteArray_output_append, ByteArray.append_assoc, bytes,
      Assembly.toByteArray_toList]
  tile := by
    rw [List.filterMap_append]
    exact h.tile.append rfl hle
  alike := by
    refine h.alike.append fun k hstart hk => ⟨_, hlexers k (Nat.lt_of_lt_of_le hk hstop), ?_⟩
    exact agrees_after_extract hstart h.agrees
  agrees := by
    rw [output_append, TagLexer.after_append]
    simpa [output, bytes] using agrees_after_extract hle h.agrees

/-- What is passed over is inserted. -/
theorem inserted (h : PutOut lexers html s₀ segments offset s) {more : ByteArray}
    (hs : s'.response.halted = false) (ho : s'.response.output = s.response.output ++ more)
    (hpass : (TagLexer.after {} (output html segments)).PassesOver more.data.toList) :
    PutOut lexers html s₀ (segments ++ [.inserted more]) offset s' where
  running := hs
  output_eq := by
    rw [ho, h.output_eq, toByteArray_output_append, ByteArray.append_assoc, bytes,
      Assembly.toByteArray_toList]
  tile := by
    rw [List.filterMap_append]
    exact (List.append_nil _).symm ▸ h.tile
  alike := h.alike.append hpass
  agrees := by
    rw [output_append, TagLexer.after_append]
    simpa [output, bytes] using hpass.agrees.trans h.agrees

end PutOut

end Segment

theorem Marker.Suits.congr {m : Marker ω δ} {l l' : TagLexer} (h : m.Suits l')
    (hagrees : l.Agrees l') : m.Suits l := by
  rw [Marker.Suits, hagrees.state, hagrees.selfClosing]
  exact h

theorem passesOver_inert {m : Marker ω δ} (hk : m.kind ≠ .attributes) (l : TagLexer)
    (bytes : List UInt8) (h : m.Suits l) (hb : InertText bytes) : l.PassesOver bytes := by
  rw [Marker.Suits, if_neg hk] at h
  exact TagLexer.passesOver_of_inert h hb

theorem passesOver_attributes {m : Marker ω δ} (hk : m.kind = .attributes) (l : TagLexer)
    (bytes : List UInt8) (h : m.Suits l) (hb : AttributeText bytes) : l.PassesOver bytes := by
  rw [Marker.Suits, if_pos hk] at h
  exact TagLexer.passesOver_of_attributes h.1 h.2 hb

/-! ## 2. Renders without drops -/

namespace Component

variable {c : Component ω δ} {data : δ} {cur cur₁ cur' : Cursor ω} {s₀ s s₁ s' : Session ω}
  {m : Marker ω δ} {segments : List Segment} {lexers : List TagLexer}

/-- A render that has begun with the session `s₀` has put out the segments and come to the
cursor: the literal bytes up to each marker, and what is then added there. -/
inductive Weaves (c : Component ω δ) (data : δ) (s₀ : Session ω) :
    List Segment → Cursor ω → Session ω → Prop
  | start : Weaves c data s₀ [] (c.cursorAt c.entry (.ofDepth c.maxNesting)) s₀
  | marker {segments : List Segment} {cur cur₁ cur' : Cursor ω} {s s₁ s' : Session ω}
      {m : Marker ω δ} {bytes : ByteArray} :
      Weaves c data s₀ segments cur s → c.Arrives cur s m cur₁ s₁ →
      c.act data cur₁ m s₁ = .ok (.goto cur', s') →
      s'.response.output = s₁.response.output ++ bytes →
      Weaves c data s₀
        (segments ++ [.literal ⟨cur.offset, m.position⟩, .inserted bytes]) cur' s'

/-- The output of the render is made of the segments. -/
inductive RendersAs (c : Component ω δ) (data : δ) (s₀ : Session ω) :
    List Segment → Session ω → Prop
  | finish {segments : List Segment} {cur cur₁ : Cursor ω} {s s' : Session ω} :
      c.Weaves data s₀ segments cur s → c.Exits cur s cur₁ s' →
      RendersAs c data s₀ (segments ++ [.literal ⟨cur.offset, c.exit.offset⟩]) s'

/-- What is known of the cursor of such a render. -/
structure Woven (c : Component ω δ) (data : δ) (lexers : List TagLexer) (s₀ : Session ω)
    (segments : List Segment) (cur : Cursor ω) (s : Session ω) : Prop extends
    Segment.PutOut lexers c.template.html s₀ segments cur.offset s where
  weaves : c.Weaves data s₀ segments cur s
  jump_eq : cur.jump = none
  stack : cur.stack.Each (Render.Inserts InertText)

/-- What is known when such a render ends: all literal bytes have been put out, and no ending is
left. -/
structure Finished (c : Component ω δ) (data : δ) (lexers : List TagLexer) (s₀ : Session ω)
    (outcome : Outcome ω) (s' : Session ω) : Prop where
  carried_eq : outcome.carried = []
  segments : ∃ segments, c.RendersAs data s₀ segments s' ∧
    Segment.PutOut lexers c.template.html s₀ segments c.exit.offset s'

/-- What is known after a step. -/
def WovenNext (c : Component ω δ) (data : δ) (lexers : List TagLexer) (s₀ : Session ω) :
    Next ω → Session ω → Prop
  | .goto cur, s => ∃ segments, c.Woven data lexers s₀ segments cur s
  | .stop outcome _, s => c.Finished data lexers s₀ outcome s

section

variable (hcalls : c.template.EachCallback fun callback => callback.Inserts data)
include hcalls

/-- The callback in a start tag adds attributes, and asks to drop nothing. -/
theorem CallsInTag.inserts {index : Nat} {e : Element} {scope : AttributeScope}
    (h : c.CallsInTag data cur s index e cur₁ scope s') (hs : s.response.halted = false) :
    scope = {} ∧ ∃ m s₁, c.Arrives cur s m cur₁ s₁ ∧ m.kind = .attributes ∧
      s₁.response.Gained AttributeText s'.response := by
  obtain ⟨ha, hm, -, hrun⟩ := h
  have hcallback := hcalls _ _ (.attributes _) ha.marker_eq (by rw [hm]; rfl)
  obtain ⟨hgained, hscope⟩ := hcallback _ _ _ _ _ (ha.running hs) hrun
  exact ⟨hscope, _, _, ha, by simp [Marker.kind, hm, Action.kind], hgained⟩

/-- The callback at a wrapper start writes, and does not ask to drop the content. -/
theorem CallsAtStart.inserts {closing? : Option Nat} {scope : WrapperScope ω}
    (h : c.CallsAtStart data cur s closing? cur₁ scope s') (hs : s.response.halted = false)
    (hstack : cur.stack.Each (Render.Inserts InertText)) :
    scope.skipContent = false ∧ (∀ ending ∈ scope.endings, Render.Inserts InertText ending) ∧
      ∃ m s₁, c.Arrives cur s m cur₁ s₁ ∧ m.kind ≠ .attributes ∧
        s₁.response.Gained InertText s'.response := by
  obtain ⟨ha, hm, hframe, hrun⟩ := h
  have hcallback := hcalls _ _ (.wrapper _) ha.marker_eq (by rw [hm]; rfl)
  obtain ⟨elements, tagMark, rfl⟩ := ha.cursor_eq
  obtain ⟨hgained, hskip, hendings⟩ :=
    hcallback _ _ _ _ _ (ha.running hs) (hstack.of_frame hframe) hrun
  exact ⟨hskip, hendings, _, _, ha, by simp [Marker.kind, hm, Action.kind], hgained⟩

end

section

variable (hlexers : ∀ k, k < c.template.html.size →
    lexers[k]? = some (TagLexer.after {} (c.template.html.extract 0 k).data.toList))
  (hsuits : ∀ (i : Nat) (m : Marker ω δ), c.template.markers[i]? = some m →
    m.Suits (TagLexer.after {} (c.template.html.extract 0 m.position).data.toList))
include hlexers hsuits

/-- The literal bytes up to the marker are written, and then its callback, or the endings that
run there, insert what is passed over. -/
theorem Woven.step (h : c.Woven data lexers s₀ segments cur s) (ha : c.Arrives cur s m cur₁ s₁)
    (hstep : c.step data cur s = .ok (settled cur' s', s')) {p : List UInt8 → Prop}
    (hgained : s₁.response.Gained p s'.response)
    (hpass : ∀ (l : TagLexer) (bytes : List UInt8), m.Suits l → p bytes → l.PassesOver bytes)
    (hoffset : cur'.offset = cur₁.offset) (hjump : cur'.jump = cur₁.jump)
    (hstack : cur'.stack.Each (Render.Inserts InertText)) :
    c.WovenNext data lexers s₀ (settled cur' s') s' := by
  obtain ⟨hrunning, bytes, hbytes, houtput⟩ := hgained
  rw [settled_of_running cur' hrunning] at hstep ⊢
  obtain ⟨hle, hsize⟩ := ha.offset_le
  have hact : c.act data cur₁ m s₁ = .ok (.goto cur', s') :=
    (ha.step_eq h.running).symm.trans hstep
  have hwrote := h.literal hle hsize hlexers
  rw [← ha.session_eq] at hwrote
  have hsuits' := (hsuits _ m ha.marker_eq).congr hwrote.agrees
  have hput := hwrote.inserted hrunning houtput (hpass _ _ hsuits' hbytes)
  rw [List.append_assoc] at hput
  have hweaves := h.weaves.marker ha hact houtput
  obtain ⟨elements, tagMark, rfl⟩ := ha.cursor_eq
  exact ⟨_, hoffset ▸ hput, hweaves, hjump.trans h.jump_eq, hstack⟩

/-- A step keeps what is known of the render. -/
theorem Transition.woven {next : Next ω} (htrans : c.Transition data cur s next s')
    (hpart : c.part = .whole)
    (hcalls : c.template.EachCallback fun callback => callback.Inserts data)
    (h : c.Woven data lexers s₀ segments cur s) : c.WovenNext data lexers s₀ next s' := by
  have hstep := htrans.step_eq h.running
  cases htrans with
  -- a jump is what a callback has asked for in a start tag, and none does
  | jump hj | jumpOut hj => cases h.jump_eq.symm.trans hj.jump_eq
  | plain ha hm hrun =>
    obtain ⟨elements, tagMark, rfl⟩ := ha.cursor_eq
    have hcallback := hcalls _ _ (.plain _) ha.marker_eq (by rw [hm]; rfl)
    have hgained := hcallback _ _ _ (ha.running h.running) hrun
    exact h.step hlexers hsuits ha hstep hgained
      (passesOver_inert (by simp [Marker.kind, hm, Action.kind])) rfl rfl h.stack
  | inTag hcalled =>
    obtain ⟨rfl, m, s₁, ha, hk, hgained⟩ := hcalled.inserts hcalls h.running
    obtain ⟨elements, tagMark, rfl⟩ := ha.cursor_eq
    exact h.step hlexers hsuits ha hstep hgained (passesOver_attributes hk) rfl rfl h.stack
  | dropElement hcalled _ hskip | elementOut hcalled _ hskip =>
    obtain ⟨rfl, -⟩ := hcalled.inserts hcalls h.running
    cases hskip
  | wrapperStart hcalled =>
    obtain ⟨-, hendings, m, s₁, ha, hk, hgained⟩ := hcalled.inserts hcalls h.running h.stack
    obtain ⟨elements, tagMark, rfl⟩ := ha.cursor_eq
    exact h.step hlexers hsuits ha hstep hgained (passesOver_inert hk) rfl rfl
      (h.stack.setFrame _ hendings)
  | dropContent hcalled _ hskip | contentOut hcalled _ hskip =>
    obtain ⟨hkeep, -⟩ := hcalled.inserts hcalls h.running h.stack
    cases hskip.symm.trans hkeep
  | wrapperEnd ha hm hle hd hframe hrun =>
    obtain ⟨elements, tagMark, rfl⟩ := ha.cursor_eq
    have hgained := Render.inserts_runEndings (h.stack.of_frame hframe) _ _ _
      (ha.running h.running) hrun
    exact h.step hlexers hsuits ha hstep hgained
      (passesOver_inert (by simp [Marker.kind, hm, Action.kind])) rfl rfl
      (h.stack.setFrame _ fun _ hending => by cases hending)
  | endBefore ha hm hlt =>
    obtain ⟨elements, tagMark, rfl⟩ := ha.cursor_eq
    have hgained : Response.Gained InertText _ s'.response :=
      .of_eq .nil (ha.running h.running) rfl
    -- the end of a wrapper that was not started in this part: no ending runs there
    rw [← settled_of_running _ hgained.running] at hstep ⊢
    exact h.step hlexers hsuits ha hstep hgained
      (passesOver_inert (by simp [Marker.kind, hm, Action.kind])) rfl rfl h.stack
  | finish he hover =>
    obtain ⟨hle, hsize, hcur, hs'⟩ := Template.advance_eq_wrote he.run_eq
    have hput := h.literal hle hsize hlexers
    rw [← hs'] at hput
    refine ⟨?_, _, .finish h.weaves he, hput⟩
    have hdepth := hover.resolve_right (by simp [hpart])
    simp [Outcome.carried, Cursor.pending, hdepth, EndingStack.openEndings]

/-- When the render ends, nothing is left to be done. -/
theorem putOut_of_render (hpart : c.part = .whole) (hentry : c.entry.offset = 0)
    (hcalls : c.template.EachCallback fun callback => callback.Inserts data)
    (hs : s.response.halted = false) (h : c.render data s = .ok ((), s')) :
    ∃ segments, c.RendersAs data s segments s' ∧
      Segment.PutOut lexers c.template.html s segments c.exit.offset s' := by
  obtain ⟨outcome, s₁, hrun, hrest⟩ := ok_of_bind h
  have hfinished : c.Finished data lexers s outcome s₁ := by
    rcases run_eq_ok hrun with ⟨hhalted, -⟩ | ⟨-, stack, hwalk⟩
    · cases hs.symm.trans hhalted
    · have hput : Segment.PutOut lexers c.template.html s [] c.entry.offset s := by
        rw [hentry]
        exact .start hs
      have hstart : c.Woven data lexers s [] (c.cursorAt c.entry (.ofDepth c.maxNesting)) s :=
        ⟨hput, .start, rfl, .ofDepth _⟩
      exact loop_induction (fun cur s₁ => ∃ segments, c.Woven data lexers s segments cur s₁)
        (fun outcome _ s₁ => c.Finished data lexers s outcome s₁) hwalk hs ⟨_, hstart⟩
        (fun _ _ _ _ _ ⟨_, hwoven⟩ htrans => htrans.woven hlexers hsuits hpart hcalls hwoven)
        fun _ _ _ ⟨_, hwoven⟩ htrans => htrans.woven hlexers hsuits hpart hcalls hwoven
  obtain ⟨hcarried, hsegments⟩ := hfinished
  have hsame : s' = s₁ := by
    cases outcome with
    | halted =>
      cases hrest
      rfl
    | finished carried | swallowed resume carried =>
      cases hcarried
      cases hrest
      rfl
  exact hsame ▸ hsegments

end

end Component

/-! ## 3. Compiled components -/

/-- Dynamic text cannot change the tags. Let no token of the source disturb the lexer, and let
the callbacks and endings insert escaped text or attributes only. Then the output of a render is
woven of the literal bytes, all of them, and of what is inserted; and a fresh lexer that is fed
with the output is, before each literal byte, as the lexer was before this byte when the source
was compiled. Whatever is inserted is passed over: no tag is opened or closed by it, it leaves no
quotes, and attributes stay in their start tag. -/
theorem insertions_keep_tags {source : String} {declarations : List (Declaration ω δ)}
    {c : Component ω δ} (h : Component.compile source declarations = .ok c)
    (hu : Undisturbed source declarations) (hd : ∀ d ∈ declarations, d.Escapes) (data : δ) :
    Render.Safe (c.render data) ∧
      ∀ s s', s.response.halted = false → c.render data s = .ok ((), s') →
        ∃ segments, c.RendersAs data s segments s' ∧
          s'.response.output =
            s.response.output ++ (Segment.output c.template.html segments).toByteArray ∧
          Span.Tile (segments.filterMap Segment.span?) 0 c.template.html.size ∧
          ∀ before x after, segments = before ++ x :: after →
            x.ReadAlike (lexersOf source declarations) c.template.html
              (TagLexer.after {} (Segment.output c.template.html before)) := by
  have hsafe := (Render.UsesApi.insert data h fun d hmem => (hd d hmem).usesApi).safe
  refine ⟨hsafe, fun s s' hs hrender => ?_⟩
  have hcalls := Component.eachCallback_of_compile (p := fun callback => callback.Inserts data) h
    fun d hmem callback hc => (hd d hmem).inserts callback hc data
  obtain ⟨a, t, -, -, hc⟩ := Component.compile_eq_ok h
  obtain ⟨segments, hrenders, hput⟩ := Component.putOut_of_render
    (fun k hk => Component.lexersOf_get h hu hk) (fun i m hm => Component.suits_of_compile h hu hm)
    (by rw [hc]) (by rw [hc]; rfl) hcalls hs hrender
  have hexit : c.exit.offset = c.template.html.size := by rw [hc]; rfl
  exact ⟨segments, hrenders, hput.output_eq, hexit ▸ hput.tile, hput.alike⟩

/-- The source `<p ${attrs} title="${tip}">${{box}${rule}${text}}}</p>`. -/
def paragraphSource : String :=
  "<p $\x7battrs\x7d title=\"$\x7btip\x7d\">$\x7b\x7bbox\x7d$\x7brule\x7d$\x7btext\x7d\x7d\x7d</p>"

/-- Its declarations: attributes, a title, and text in a wrapper, all of which hold markup. One
token has a static text only. -/
def paragraph : List (Declaration Unit Unit) :=
  [.attributes "attrs" fun _ => do
      AttributeRender.addAttribute "a\"b/" "x>y"
      AttributeRender.addAttribute "" "'",
    .plain "tip" fun _ => Render.write "\"></p><script>",
    .wrapper "box" fun _ => WrapperRender.addEnding (Render.write "</p>"),
    (Declaration.fixed "rule").withStatic "<hr>",
    .plain "text" fun _ => do
      Render.writeBytes "<!-- &".toUTF8
      Render.writeInt (-1)]

theorem insertions_keep_tags_of_paragraph :
    ∃ c, Component.compile paragraphSource paragraph = .ok c ∧
      Undisturbed paragraphSource paragraph ∧
      ∃ s', c.render () (Session.fresh ()) = .ok ((), s') ∧
        s'.response.output = ("<p  a&#34;b/=\"x&gt;y\" _=\"&#39;\" title=\"" ++
          "&#34;&gt;&lt;/p&gt;&lt;script&gt;\"><hr>&lt;!-- &amp;-1&lt;/p&gt;</p>").toUTF8 ∧
        ∃ segments, c.RendersAs () (Session.fresh ()) segments s' ∧
          ∀ before x after, segments = before ++ x :: after →
            x.ReadAlike (lexersOf paragraphSource paragraph) c.template.html
              (TagLexer.after {} (Segment.output c.template.html before)) := by
  have hrun : ((Component.compile paragraphSource paragraph).toOption.any fun c =>
      (c.render () (Session.fresh ())).toOption.any fun p =>
        p.2.response.output = ("<p  a&#34;b/=\"x&gt;y\" _=\"&#39;\" title=\"" ++
          "&#34;&gt;&lt;/p&gt;&lt;script&gt;\"><hr>&lt;!-- &amp;-1&lt;/p&gt;</p>").toUTF8) =
      true := by
    decide +kernel
  obtain ⟨c, hc, hrun⟩ := exists_ok_of_any hrun
  obtain ⟨⟨⟨⟩, s'⟩, hrender, hrun⟩ := exists_ok_of_any hrun
  have hu : Undisturbed paragraphSource paragraph := by decide +kernel
  have hd : ∀ d ∈ paragraph, d.Escapes := by
    simp only [paragraph, List.forall_mem_cons]
    exact ⟨.attributes rfl fun _ => .bind (.addAttribute _ _) fun _ => .addAttribute _ _,
      .plain rfl fun _ => .write _, .wrapper rfl fun _ => .addEnding (.write _),
      .fixed rfl, .plain rfl fun _ => .bind (.writeBytes _) fun _ => .write _, nofun⟩
  obtain ⟨segments, hrenders, -, -, halike⟩ :=
    (insertions_keep_tags hc hu hd ()).2 _ s' rfl hrender
  exact ⟨c, hc, hu, s', hrender, by simpa using hrun, segments, hrenders, halike⟩

end HtmlTemplate
