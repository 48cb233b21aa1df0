import HtmlTemplate.Proofs.Markup.Inert
import HtmlTemplate.Proofs.Template.Items

/-!
# Sources whose tokens do not disturb the lexer

While a source is compiled, its literal bytes are read one after the other, and at each token the
lexer is interrupted. If this changes nothing, then the lexer goes through the literal bytes as
if there were no tokens. And if no token stands in a comment, then each marker stands where what
its callback may insert is passed over.

Results:
1. `Undisturbed`, `lexersOf`: what is said of the pass over a source.
2. `continues_of_addPiece`: what a piece adds, if it does not disturb the lexer.
3. `Assembly.Follows.of_foldlM`: the same of a pass.
4. `follows_of_compile?`, `lexersOf_eq`: compiled templates.
-/

namespace HtmlTemplate

variable {ω δ : Type}

/-! ## 1. Lexers -/

/-- The lexers before each of the bytes. -/
def TagLexer.before (l : TagLexer) : List UInt8 → List TagLexer
  | [] => []
  | byte :: rest => l :: (l.step byte).1.before rest

theorem TagLexer.before_append (l : TagLexer) (front back : List UInt8) :
    l.before (front ++ back) = l.before front ++ (l.after front).before back := by
  induction front generalizing l with
  | nil => rfl
  | cons byte front ih => exact congrArg (l :: ·) (ih _)

theorem TagLexer.getElem?_before (l : TagLexer) {bytes : List UInt8} {k : Nat}
    (hk : k < bytes.length) : (l.before bytes)[k]? = some (l.after (bytes.take k)) := by
  induction bytes generalizing l k with
  | nil => cases hk
  | cons byte bytes ih =>
    cases k with
    | zero => rfl
    | succ k => exact ih _ (Nat.lt_of_succ_lt_succ hk)

namespace TagReader

theorem lexer_step (r : TagReader) (around : Surroundings) (byte : UInt8) :
    (r.step around byte).1.lexer = (r.lexer.step byte).1 := by
  unfold step
  cases h : r.lexer.step byte with
  | mk lexer tag => cases tag <;> simp [h]

theorem lexer_of_feed {r r' : TagReader} {around : Surroundings} {bytes : List UInt8}
    (h : r.feed around bytes = (r', none)) : r'.lexer = r.lexer.after bytes := by
  induction bytes generalizing r with
  | nil =>
    cases h
    rfl
  | cons byte bytes ih =>
    rw [feed] at h
    have hstep := lexer_step r around byte
    split at h
    · next next hnext =>
      rw [hnext] at hstep
      rw [ih h, hstep]
      rfl
    · cases h

end TagReader

/-! ## 2. Passes -/

namespace Assembly

/-- The literal bytes that the piece adds: a character, or the static text of the declaration
that a named token uses up. -/
def literalOf (a : Assembly ω δ) : Piece → List UInt8
  | .text c => String.utf8EncodeChar c
  | .token t => if t.kind.isNamed then (a.declarations.head?.map Declaration.bytes).getD [] else []

/-- The tag reader behind these bytes. -/
def readerBehind (a : Assembly ω δ) (p : Piece) : TagReader :=
  (a.reader.feed a.surroundings (a.literalOf p)).1

/-- If the piece is a token, then it leaves the tag reader as it is, and stands in no comment. -/
def LeavesReader (a : Assembly ω δ) (p : Piece) : Prop :=
  p.token?.isSome = true → (a.readerBehind p).interrupt = a.readerBehind p ∧
    (a.readerBehind p).lexer.state.inComment = false

instance (a : Assembly ω δ) (p : Piece) : Decidable (a.LeavesReader p) :=
  inferInstanceAs (Decidable (_ → _))

/-- The pieces, each with the assembly that it is added to, up to one that is refused. -/
def pass (a : Assembly ω δ) : List Piece → List (Assembly ω δ × Piece)
  | [] => []
  | p :: rest => (a, p) :: match a.addPiece p with
    | .ok b => b.pass rest
    | .error _ => []

end Assembly

/-- No token of the source moves the tag reader, be its marker kept or not, and none stands in a
comment. -/
def Undisturbed (source : String) (declarations : List (Declaration ω δ)) : Prop :=
  ∀ x ∈ (Assembly.atStart source declarations).pass (pieces source), x.1.LeavesReader x.2

instance (source : String) (declarations : List (Declaration ω δ)) :
    Decidable (Undisturbed source declarations) :=
  inferInstanceAs (Decidable (∀ x ∈ _, _))

/-- The lexer before each literal byte, as the source is compiled. -/
def lexersOf (source : String) (declarations : List (Declaration ω δ)) : List TagLexer :=
  ((Assembly.atStart source declarations).pass (pieces source)).flatMap fun x =>
    x.1.reader.lexer.before (x.1.literalOf x.2)

/-! ## 3. Markers -/

/-- What the callback of the marker may insert is passed over by the lexer. -/
def Marker.Suits (m : Marker ω δ) (l : TagLexer) : Prop :=
  if m.kind = .attributes then l.state = .inTag ∧ l.selfClosing = false else l.state.Steady

/-- The markers do the same kind of thing in the same place. -/
structure Marker.Alike (m n : Marker ω δ) : Prop where
  position_eq : m.position = n.position
  kind_eq : m.kind = n.kind

theorem Marker.Alike.suits {m n : Marker ω δ} {l : TagLexer} (h : m.Alike n) (hn : n.Suits l) :
    m.Suits l := by
  rwa [Marker.Suits, h.kind_eq]

/-- A reader that a token leaves as it is, and that is not in a comment. -/
structure TagReader.Rests (r : TagReader) : Prop where
  quotes : r.lexer.InQuotes
  interrupt_eq : r.interrupt = r
  inComment : r.lexer.state.inComment = false

namespace TagReader.Rests

variable {r : TagReader} {m : Marker ω δ}

theorem lexer_eq (h : r.Rests) : r.interrupt.lexer = r.lexer :=
  congrArg TagReader.lexer h.interrupt_eq

/-- A marker in text or in a value. -/
theorem suits (h : r.Rests) (hs : r.interrupt.inStartTag = false)
    (he : r.interrupt.inEndTag = false) (hk : m.kind ≠ .attributes) : m.Suits r.lexer := by
  rw [h.interrupt_eq] at hs he
  rw [Marker.Suits, if_neg hk]
  exact TagLexer.steady_of_interrupt h.quotes h.lexer_eq h.inComment hs he

/-- A marker in text. -/
theorem suits_of_outside (h : r.Rests) (hin : r.interrupt.insideTag = false)
    (hk : m.kind ≠ .attributes) : m.Suits r.lexer := by
  have hin : (r.interrupt.inStartTag || r.interrupt.inEndTag ||
      r.interrupt.lexer.state.inValue) = false := hin
  simp only [Bool.or_eq_false_iff] at hin
  exact h.suits hin.1.1 hin.1.2 hk

/-- A marker between attributes. -/
theorem suits_of_inStartTag (h : r.Rests) (hs : r.interrupt.inStartTag = true)
    (hk : m.kind = .attributes) : m.Suits r.lexer := by
  rw [h.interrupt_eq] at hs
  rw [Marker.Suits, if_pos hk]
  exact TagLexer.inTag_of_interrupt h.lexer_eq hs

end TagReader.Rests

namespace Assembly

variable {a b : Assembly ω δ} {p : Piece} {t : Token}

/-- What a piece adds that leaves the reader as it is. -/
structure Continues (a b : Assembly ω δ) (bytes : List UInt8) : Prop where
  html_eq : b.html = a.html ++ bytes.toByteArray
  lexer_eq : b.reader.lexer = a.reader.lexer.after bytes
  marker : ∀ (i : Nat) (m : Marker ω δ), b.markers[i]? = some m →
    (∃ n, a.markers[i]? = some n ∧ m.Alike n) ∨
      m.position = b.html.size ∧ m.Suits b.reader.lexer

namespace Continues

variable {bytes : List UInt8}

theorem of_eq (hh : b.html = a.html ++ bytes.toByteArray)
    (hl : b.reader.lexer = a.reader.lexer.after bytes) (hm : b.markers = a.markers) :
    Continues a b bytes :=
  ⟨hh, hl, fun _ m h => .inl ⟨m, hm ▸ h, rfl, rfl⟩⟩

theorem of_addMarker {c : Assembly ω δ} (name : String) {action : Action ω δ}
    (hh : c.html = a.html ++ bytes.toByteArray)
    (hl : c.reader.lexer = a.reader.lexer.after bytes) (hm : c.markers = a.markers)
    (hs : ∀ n : Marker ω δ, n.kind = action.kind → n.Suits c.reader.lexer) :
    Continues a (c.addMarker name action) bytes := by
  refine ⟨hh, hl, fun i m h => ?_⟩
  rw [addMarker, hm, Array.getElem?_push] at h
  split at h
  · cases h
    exact .inr ⟨rfl, hs _ rfl⟩
  · exact .inl ⟨m, h, rfl, rfl⟩

/-- A wrapper start learns of its end. -/
theorem closedBy {c : Assembly ω δ} {i closing : Nat} (h : Continues a b bytes)
    (hh : c.html = b.html) (hr : c.reader = b.reader)
    (hm : c.markers = b.markers.modify i (·.closedBy closing)) : Continues a c bytes := by
  refine ⟨hh.trans h.html_eq, hr ▸ h.lexer_eq, fun j m hj => ?_⟩
  have halike : ∃ n, b.markers[j]? = some n ∧ m.Alike n := by
    rw [hm, Array.getElem?_modify] at hj
    split at hj
    · obtain ⟨n, hn, rfl⟩ := Option.map_eq_some_iff.mp hj
      exact ⟨n, hn, Marker.position_closedBy n closing, Marker.kind_closedBy n closing⟩
    · exact ⟨m, hj, rfl, rfl⟩
  obtain ⟨n, hn, hmn⟩ := halike
  rcases h.marker j n hn with ⟨n', hn', hnn'⟩ | ⟨hp, hs⟩
  · exact .inl ⟨n', hn', hmn.position_eq.trans hnn'.position_eq, hmn.kind_eq.trans hnn'.kind_eq⟩
  · exact .inr ⟨hh ▸ hmn.position_eq.trans hp, hr ▸ hmn.suits hs⟩

end Continues

theorem continues_of_placed {c : Assembly ω δ} {d : Declaration ω δ} {isWrapper : Bool}
    {bytes : List UInt8} (hp : Placed c d isWrapper b) (hr : c.reader.Rests)
    (hh : c.html = a.html ++ bytes.toByteArray)
    (hl : c.reader.lexer = a.reader.lexer.after bytes) (hm : c.markers = a.markers) :
    Continues a b bytes := by
  have hl' : c.reader.interrupt.lexer = a.reader.lexer.after bytes := hr.lexer_eq.trans hl
  cases hp with
  | plain run hc hs he =>
    refine .of_addMarker d.name hh hl' hm fun n hn => ?_
    exact hr.lexer_eq.symm ▸ hr.suits hs he (by simp [hn, Action.kind])
  | attributes run hc hs =>
    refine .of_addMarker d.name hh hl' hm fun n hn => ?_
    exact hr.lexer_eq.symm ▸ hr.suits_of_inStartTag hs (by simp [hn, Action.kind])
  | wrapper run hc hin =>
    have hadded : Continues a (c.interrupt.addMarker d.name (.wrapperStart run none)) bytes := by
      refine .of_addMarker d.name hh hl' hm fun n hn => ?_
      exact hr.lexer_eq.symm ▸ hr.suits_of_outside hin (by simp [hn, Action.kind])
    exact ⟨hadded.html_eq, hadded.lexer_eq, hadded.marker⟩
  | folded | foldedWrapper => exact .of_eq hh hl' hm

theorem continues_of_addWrapperEnd {start : Nat} (hr : a.reader.Rests)
    (hb : a.addWrapperEnd start = .ok b) : Continues a b [] := by
  obtain ⟨opening, rest, -, hin, -, rfl⟩ := addWrapperEnd_eq_ok hb
  have hh : a.html = a.html ++ [].toByteArray := by simp
  cases opening with
  | none => exact .of_eq hh hr.lexer_eq rfl
  | some i =>
    have hadded : Continues a ({ a with reader := a.reader.interrupt, openWrappers := rest
        }.addMarker ((a.markers[i]?.map Marker.name).getD "") (.wrapperEnd i)) [] := by
      refine .of_addMarker _ hh hr.lexer_eq rfl fun n hn => ?_
      exact hr.lexer_eq.symm ▸ hr.suits_of_outside hin (by simp [hn, Action.kind])
    exact hadded.closedBy rfl rfl rfl

theorem continues_of_addNamed {name : String} {isWrapper : Bool} {start : Nat}
    (hq : a.reader.lexer.InQuotes) (hstill : a.LeavesReader (.token t))
    (hk : t.kind.isNamed = true) (hb : a.addNamed name isWrapper start = .ok b) :
    Continues a b (a.literalOf (.token t)) := by
  obtain ⟨d, rest, r, hds, -, -, hfeed, hp⟩ := addNamed_eq_ok hb
  have hliteral : a.literalOf (.token t) = d.bytes := by simp [literalOf, hk, hds]
  have hbehind : a.readerBehind (.token t) = r := by
    rw [readerBehind, hliteral, Declaration.bytes, hfeed]
  have hlexer : r.lexer = a.reader.lexer.after d.bytes := TagReader.lexer_of_feed hfeed
  obtain ⟨hi, hc⟩ := hbehind ▸ hstill rfl
  rw [hliteral]
  have hquotes : r.lexer.InQuotes := hlexer ▸ hq.after _
  refine continues_of_placed hp ⟨hquotes, hi, hc⟩ ?_ hlexer rfl
  rw [Declaration.bytes, toByteArray_toList]

/-- Whatever the piece, the lexer goes on as if there were no token. -/
theorem continues_of_addPiece (hq : a.reader.lexer.InQuotes) (hstill : a.LeavesReader p)
    (hb : a.addPiece p = .ok b) : Continues a b (a.literalOf p) := by
  cases p with
  | text c =>
    obtain ⟨r, hr, rfl⟩ := addBytes_eq_ok hb
    exact .of_eq rfl (TagReader.lexer_of_feed hr) rfl
  | token t =>
    obtain ⟨kind, start, stop⟩ := t
    cases kind with
    | content =>
      obtain ⟨hi, -⟩ := hstill rfl
      obtain ⟨-, -, rfl⟩ := addContent_eq_ok hb
      have hlexer : a.reader.interrupt.lexer = a.reader.lexer := congrArg TagReader.lexer hi
      exact .of_eq (by simp [literalOf, TokenKind.isNamed, TokenKind.name?]) hlexer rfl
    | wrapperEnd =>
      obtain ⟨hi, hc⟩ := hstill rfl
      exact continues_of_addWrapperEnd ⟨hq, hi, hc⟩ hb
    | wrapperStart name | plain name => exact continues_of_addNamed hq hstill rfl hb

/-! ## 4. Passes -/

/-- The lexer has read the literal bytes as they are, and each marker stands where what its
callback may insert is passed over. -/
structure Follows (a : Assembly ω δ) : Prop where
  lexer_eq : a.reader.lexer = TagLexer.after {} a.html.data.toList
  marker : ∀ (i : Nat) (m : Marker ω δ), a.markers[i]? = some m → m.position ≤ a.html.size ∧
    m.Suits (TagLexer.after {} (a.html.extract 0 m.position).data.toList)

namespace Follows

theorem initial (counts : MarkerCounts) (declarations : List (Declaration ω δ)) :
    Follows (Assembly.initial counts declarations) :=
  ⟨rfl, fun i m hm => by simp [Assembly.initial] at hm⟩

theorem continues {bytes : List UInt8} (ha : Follows a) (h : Continues a b bytes) : Follows b := by
  have hlexer : b.reader.lexer = TagLexer.after {} b.html.data.toList := by
    rw [h.lexer_eq, ha.lexer_eq, h.html_eq, ByteArray.data_append, Array.toList_append,
      TagLexer.after_append]
    simp
  refine ⟨hlexer, fun i m hm => ?_⟩
  rcases h.marker i m hm with ⟨n, hn, halike⟩ | ⟨hp, hs⟩
  · obtain ⟨hle, hsuits⟩ := ha.marker i n hn
    rw [halike.position_eq, h.html_eq, ByteArray.extract_append, Nat.sub_eq_zero_of_le hle]
    exact ⟨by simp [Nat.le_add_right_of_le hle], halike.suits (by simpa using hsuits)⟩
  · rw [hp, ByteArray.extract_zero_size, ← hlexer]
    exact ⟨Nat.le_refl _, hs⟩

/-- A pass reads the bytes that it adds one after the other. -/
theorem of_foldlM {pieces : List Piece} (ha : Follows a) (hb : pieces.foldlM addPiece a = .ok b)
    (hstill : ∀ x ∈ a.pass pieces, x.1.LeavesReader x.2) :
    Follows b ∧ ∃ bytes : List UInt8, b.html = a.html ++ bytes.toByteArray ∧
      ((a.pass pieces).flatMap fun x => x.1.reader.lexer.before (x.1.literalOf x.2)) =
        a.reader.lexer.before bytes := by
  induction pieces generalizing a with
  | nil =>
    cases hb
    exact ⟨ha, [], by simp, rfl⟩
  | cons p pieces ih =>
    obtain ⟨c, hc, hrest⟩ := exists_ok_of_bind hb
    rw [pass, hc] at hstill ⊢
    obtain ⟨hfirst, hstill⟩ := List.forall_mem_cons.mp hstill
    -- it has read literal bytes only, so a value that it stands in was opened by a quote
    have hquotes : a.reader.lexer.InQuotes := ha.lexer_eq ▸ TagLexer.inQuotes_after _
    have hcont := continues_of_addPiece hquotes hfirst hc
    obtain ⟨hfollows, bytes, hhtml, hlexers⟩ := ih (ha.continues hcont) hrest hstill
    refine ⟨hfollows, a.literalOf p ++ bytes, ?_, ?_⟩
    · rw [hhtml, hcont.html_eq, List.toByteArray_append, ByteArray.append_assoc]
    · rw [List.flatMap_cons, hlexers, hcont.lexer_eq, TagLexer.before_append]

end Follows

end Assembly

/-! ## 5. Compiled templates -/

section

variable {source : String} {declarations : List (Declaration ω δ)} {c : Component ω δ}

/-- Each marker stands where what its callback may insert is passed over by a lexer that reads
the literal bytes. -/
theorem Component.suits_of_compile (h : Component.compile source declarations = .ok c)
    (hu : Undisturbed source declarations) {i : Nat} {m : Marker ω δ}
    (hm : c.template.markers[i]? = some m) :
    m.Suits (TagLexer.after {} (c.template.html.extract 0 m.position).data.toList) := by
  obtain ⟨a, t, ht, -, rfl⟩ := Component.compile_eq_ok h
  obtain ⟨hfold, hfinish⟩ := compile?_eq_atStart ht
  obtain ⟨-, -, -, rfl⟩ := Assembly.finish_eq_ok hfinish
  exact ((Assembly.Follows.of_foldlM (.initial _ _) hfold hu).1.marker i m hm).2

/-- As the source is compiled, the lexer goes through the literal bytes as if there were no
tokens. -/
theorem Component.lexersOf_eq (h : Component.compile source declarations = .ok c)
    (hu : Undisturbed source declarations) :
    lexersOf source declarations = TagLexer.before {} c.template.html.data.toList := by
  obtain ⟨a, t, ht, -, rfl⟩ := Component.compile_eq_ok h
  obtain ⟨hfold, hfinish⟩ := compile?_eq_atStart ht
  obtain ⟨-, -, -, rfl⟩ := Assembly.finish_eq_ok hfinish
  obtain ⟨-, bytes, hhtml, hlexers⟩ := Assembly.Follows.of_foldlM (.initial _ _) hfold hu
  have hbytes : a.html.data.toList = bytes := by
    rw [hhtml]
    simp [Assembly.initial]
  show lexersOf source declarations = TagLexer.before {} a.html.data.toList
  rw [hbytes]
  exact hlexers

/-- The lexer before the literal byte at `k`. -/
theorem Component.lexersOf_get (h : Component.compile source declarations = .ok c)
    (hu : Undisturbed source declarations) {k : Nat} (hk : k < c.template.html.size) :
    (lexersOf source declarations)[k]? =
      some (TagLexer.after {} (c.template.html.extract 0 k).data.toList) := by
  rw [Component.lexersOf_eq h hu, TagLexer.getElem?_before _ (by simpa using hk)]
  simp

end

end HtmlTemplate
