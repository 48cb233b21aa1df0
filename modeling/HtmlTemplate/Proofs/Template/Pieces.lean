import Mathlib.Logic.Relation
import HtmlTemplate.Proofs.Template.Sources
import HtmlTemplate.Template.Assembly

/-!
# What adding a piece does

A piece of a source is added to an assembly in several steps, each of which may
refuse it. This module says what an addition that succeeds has done, so that no
later proof opens the functions that compile.

Results:
1. `addBytes_eq`: how bytes are added. `addBytes_eq_ok`, `addContent_eq_ok`,
   `addWrapperEnd_eq_ok`, `takeDeclaration_eq_ok`: what one step has checked and
   changed. The other way round, `addBytes_of_feed`, `addContent_of_outside` and
   `addWrapperEnd_of_outside` say what is enough. `foldlM_chars`: characters are added
   as their bytes are.
2. `addNamed_eq_ok`, `addNamed_of_placed`: a named token uses up a declaration, adds
   its static text and is then `Placed` in one of five ways.
3. `invariant_of_foldlM`: a pass is made of edits, so what every `Edit` keeps holds
   of every assembly.
4. `size_html_le_of_foldlM`: there are never more literal bytes than a template can have.
5. `finish_eq_ok`, `compile?_eq_ok`, `Component.compile_eq_ok`,
   `Wrapper.compile_eq_ok`: a compiled template is a finished assembly.
-/

namespace HtmlTemplate

variable {ω δ : Type}

/-- A sequence of two steps succeeds if the first does, and the second on its result. -/
theorem exists_ok_of_bind {ε α β : Type} {x : Except ε α} {f : α → Except ε β} {b : β}
    (h : (x >>= f) = .ok b) : ∃ a, x = .ok a ∧ f a = .ok b := by
  cases x with
  | error e => cases h
  | ok a => exact ⟨a, rfl, h⟩

theorem exists_eq_ok {ε α : Type} {x : Except ε α} (h : x.isOk = true) : ∃ a, x = .ok a := by
  cases x with
  | error e => cases h
  | ok a => exact ⟨a, rfl⟩

theorem exists_ok_of_any {ε α : Type} {x : Except ε α} {p : α → Bool}
    (h : x.toOption.any p = true) : ∃ a, x = .ok a ∧ p a = true := by
  cases x with
  | error e => cases h
  | ok a => exact ⟨a, rfl, h⟩

/-- Bytes are read one part after the other. -/
theorem TagReader.feed_append (r : TagReader) (around : Surroundings) (front back : List UInt8) :
    r.feed around (front ++ back) =
      match r.feed around front with
      | (next, none) => next.feed around back
      | (next, some name) => (next, some name) := by
  induction front generalizing r with
  | nil => rfl
  | cons byte front ih =>
    rw [List.cons_append, feed, feed]
    rcases r.step around byte with ⟨next, _ | name⟩
    · exact ih next
    · rfl

namespace Assembly

/-! ## 1. Single steps -/

theorem toByteArray_toList (html : ByteArray) : html.data.toList.toByteArray = html := by
  apply ByteArray.ext
  simp

/-- A byte for which there is room is read, and takes up some of the room. -/
theorem addByte_of_room {a : Assembly ω δ} (hroom : 0 < a.room) (byte : UInt8) :
    a.addByte byte =
      match a.reader.step a.surroundings byte with
      | (r, none) => .ok { a with reader := r, html := a.html.push byte }
      | (_, some name) => .error (.wrapperCrossesElement name) :=
  if_neg (Nat.ne_of_gt hroom)

theorem addByte_of_full {a : Assembly ω δ} (hfull : a.room = 0) (byte : UInt8) :
    a.addByte byte = .error .tooLarge :=
  if_pos hfull

theorem room_push (a : Assembly ω δ) (r : TagReader) (byte : UInt8) :
    ({ a with reader := r, html := a.html.push byte } : Assembly ω δ).room = a.room - 1 := by
  rw [room, room, ByteArray.size_push, Nat.sub_add_eq]

/-- How bytes are added: they are read one after the other, up to the first that closes an element
at the wrong wrapper depth, or for which there is no room. -/
theorem addBytes_eq (a : Assembly ω δ) (bytes : List UInt8) :
    a.addBytes bytes =
      match a.reader.feed a.surroundings (bytes.take a.room) with
      | (r, none) =>
        if bytes.length ≤ a.room then
          .ok { a with reader := r, html := a.html ++ bytes.toByteArray }
        else .error .tooLarge
      | (_, some name) => .error (.wrapperCrossesElement name) := by
  unfold addBytes
  induction bytes generalizing a with
  | nil => simp [TagReader.feed, pure, Except.pure]
  | cons byte bytes ih =>
    rw [List.foldlM_cons]
    rcases Nat.eq_zero_or_pos a.room with hfull | hroom
    · rw [addByte_of_full hfull, hfull]
      rfl
    · obtain ⟨room, hsucc⟩ := Nat.exists_eq_add_one.mpr hroom
      rw [addByte_of_room hroom, hsucc, List.take_succ_cons, TagReader.feed]
      rcases a.reader.step a.surroundings byte with ⟨r, _ | name⟩
      · have hhtml : a.html.push byte ++ bytes.toByteArray =
            a.html ++ (byte :: bytes).toByteArray := by
          apply ByteArray.ext
          simp
        show bytes.foldlM addByte { a with reader := r, html := a.html.push byte } = _
        rw [ih, room_push, hsucc, Nat.add_sub_cancel, hhtml, List.length_cons]
        simp only [Nat.add_le_add_iff_right]
        rfl
      · rfl

theorem addBytes_eq_ok {a b : Assembly ω δ} {bytes : List UInt8} (h : a.addBytes bytes = .ok b) :
    ∃ r, a.reader.feed a.surroundings bytes = (r, none) ∧
      b = { a with reader := r, html := a.html ++ bytes.toByteArray } := by
  rw [addBytes_eq] at h
  split at h
  · next r hr =>
    split at h
    · next hlength =>
      cases h
      rw [List.take_of_length_le hlength] at hr
      exact ⟨r, hr, rfl⟩
    · cases h
  · cases h

/-- What has been added had room. -/
theorem length_le_room {a b : Assembly ω δ} {bytes : List UInt8} (h : a.addBytes bytes = .ok b) :
    bytes.length ≤ a.room := by
  rw [addBytes_eq] at h
  split at h
  · split at h
    · assumption
    · cases h
  · cases h

theorem addBytes_of_feed {a : Assembly ω δ} {bytes : List UInt8} {r : TagReader}
    (hlength : bytes.length ≤ a.room) (hr : a.reader.feed a.surroundings bytes = (r, none)) :
    a.addBytes bytes = .ok { a with reader := r, html := a.html ++ bytes.toByteArray } := by
  rw [addBytes_eq, List.take_of_length_le hlength, hr]
  exact if_pos hlength

theorem addBytes_append (a : Assembly ω δ) (front back : List UInt8) :
    a.addBytes (front ++ back) = a.addBytes front >>= (·.addBytes back) :=
  List.foldlM_append

/-- The characters of a text are bytes that follow each other. -/
theorem foldlM_chars (a : Assembly ω δ) (cs : List Char) :
    (cs.map Piece.text).foldlM addPiece a = a.addBytes (encoded cs) := by
  induction cs generalizing a with
  | nil => rfl
  | cons c cs ih =>
    rw [List.map_cons, List.foldlM_cons, encoded_cons, addBytes_append]
    exact congrArg (_ >>= ·) (funext fun b => ih b)

theorem requireOutsideTag_eq_ok {a : Assembly ω δ} {start : Nat} {u : Unit}
    (h : a.requireOutsideTag start = .ok u) : a.reader.insideTag = false := by
  unfold requireOutsideTag at h
  split at h
  · cases h
  · next h' => simpa using h'

theorem requireOutsideTag_of_outside {a : Assembly ω δ} (h : a.reader.insideTag = false)
    (start : Nat) : a.requireOutsideTag start = .ok () := by
  rw [requireOutsideTag, h]
  rfl

theorem addContent_eq_ok {a b : Assembly ω δ} {start : Nat} (h : a.addContent start = .ok b) :
    a.reader.interrupt.insideTag = false ∧ a.content = none ∧
      b = { a with reader := a.reader.interrupt.markContent, content := some a.place } := by
  obtain ⟨u, hu, h⟩ := exists_ok_of_bind h
  refine ⟨requireOutsideTag_eq_ok hu, ?_⟩
  cases hc : a.content with
  | some p =>
    simp only [interrupt, hc] at h
    cases h
  | none =>
    simp only [interrupt, hc] at h
    cases h
    exact ⟨rfl, rfl⟩

theorem addContent_of_outside {a : Assembly ω δ} (hin : a.reader.interrupt.insideTag = false)
    (hc : a.content = none) (start : Nat) : a.addContent start =
      .ok { a with reader := a.reader.interrupt.markContent, content := some a.place } := by
  have hout : a.interrupt.requireOutsideTag start = .ok () := requireOutsideTag_of_outside hin start
  have hcontent : a.interrupt.content = none := hc
  simp only [addContent, hout, hcontent]
  rfl

theorem addWrapperEnd_eq_ok {a b : Assembly ω δ} {start : Nat}
    (h : a.addWrapperEnd start = .ok b) :
    ∃ opening rest, a.openWrappers = opening :: rest ∧
      a.reader.interrupt.insideTag = false ∧
      a.reader.interrupt.crossedAt? rest.length = none ∧
      b = match opening with
        | none => { a with reader := a.reader.interrupt, openWrappers := rest }
        | some i =>
          { a with reader := a.reader.interrupt, openWrappers := rest }.closeWrapper i := by
  obtain ⟨u, hu, h⟩ := exists_ok_of_bind h
  have hin := requireOutsideTag_eq_ok hu
  simp only [interrupt] at h
  split at h
  · cases h
  · next opening rest ho =>
    refine ⟨opening, rest, ho, hin, ?_⟩
    split at h
    · cases h
    · next hc =>
      refine ⟨Option.eq_none_iff_forall_not_mem.mpr hc, ?_⟩
      cases opening with
      | none =>
        cases h
        rfl
      | some i =>
        cases h
        rfl

theorem addWrapperEnd_of_outside {a : Assembly ω δ} {opening : Option Nat}
    {rest : List (Option Nat)} (hin : a.reader.interrupt.insideTag = false)
    (hcross : a.reader.interrupt.crossedAt? rest.length = none) (start : Nat) :
    a.openWrappers = opening :: rest → a.addWrapperEnd start = .ok (match opening with
      | none => { a with reader := a.reader.interrupt, openWrappers := rest }
      | some i =>
        { a with reader := a.reader.interrupt, openWrappers := rest }.closeWrapper i) := by
  intro ho
  have hout : a.interrupt.requireOutsideTag start = .ok () := requireOutsideTag_of_outside hin start
  have hopened : a.interrupt.openWrappers = opening :: rest := ho
  have hcrossed : a.interrupt.reader.crossedAt? rest.length = none := hcross
  simp only [addWrapperEnd, hout, hopened, hcrossed]
  cases opening <;> rfl

theorem takeDeclaration_eq_ok {a b : Assembly ω δ} {name : String} {d : Declaration ω δ}
    (h : a.takeDeclaration name = .ok (d, b)) :
    ∃ rest, a.declarations = d :: rest ∧ d.name = name ∧ name ∉ a.seen ∧
      b = { a with declarations := rest, seen := name :: a.seen } := by
  unfold takeDeclaration at h
  split at h
  · cases h
  · next hs =>
    split at h
    · cases h
    · next d' rest hd =>
      split at h
      · cases h
      · next hn =>
        cases h
        exact ⟨rest, hd, by simpa using hn, hs, rfl⟩

/-! ## 2. Named tokens -/

/-- What becomes of a named token with the declaration `d` when its static text
has been added: the tag reader is interrupted, and a marker may be added. -/
inductive Placed (a : Assembly ω δ) (d : Declaration ω δ) : Bool → Assembly ω δ → Prop
  | plain (run : δ → Render ω Unit) :
      d.callback = some (.plain run) → a.reader.interrupt.inStartTag = false →
      a.reader.interrupt.inEndTag = false →
      Placed a d false (a.interrupt.addMarker d.name (.plain run))
  | attributes (run : δ → AttributeRender ω Unit) :
      d.callback = some (.attributes run) → a.reader.interrupt.inStartTag = true →
      Placed a d false ({ a with reader := a.reader.interrupt.attachMarker.1 }.addMarker d.name
        (.attributes run a.reader.interrupt.attachMarker.2))
  | wrapper (run : δ → WrapperRender ω Unit) :
      d.callback = some (.wrapper run) → a.reader.interrupt.insideTag = false →
      Placed a d true (a.interrupt.openWrapper d.name run)
  /-- A plain token without a callback, which leaves no marker. -/
  | folded :
      d.callback = none → a.reader.interrupt.inEndTag = false → Placed a d false a.interrupt
  /-- A wrapper start without a callback, which leaves no marker but is open. -/
  | foldedWrapper :
      d.callback = none → a.reader.interrupt.insideTag = false →
      Placed a d true { a.interrupt with openWrappers := none :: a.openWrappers }

theorem plainKind_eq_ok {a : Assembly ω δ} {name : String} {kind : MarkerKind}
    (h : a.plainKind name = .ok kind) :
    (kind = .attributes ∧ a.reader.inStartTag = true) ∨
      (kind = .plain ∧ a.reader.inStartTag = false ∧ a.reader.inEndTag = false) := by
  unfold plainKind at h
  split at h
  · next hs =>
    cases h
    exact .inl ⟨rfl, hs⟩
  · next hs =>
    split at h
    · cases h
    · next he =>
      cases h
      exact .inr ⟨rfl, by simpa using hs, by simpa using he⟩

/-- No place is in a start tag and in an end tag. -/
theorem inEndTag_of_inStartTag {r : TagReader} (h : r.inStartTag = true) : r.inEndTag = false := by
  unfold TagReader.inStartTag TagState.inStartTag at h
  unfold TagReader.inEndTag TagState.isInEndTag
  cases hs : r.lexer.state <;> simp_all

theorem placed_of_plainKind {a b : Assembly ω δ} {d : Declaration ω δ} {kind : MarkerKind}
    (hk : a.interrupt.plainKind d.name = .ok kind)
    (h : (match d.callback with
      | some callback => a.interrupt.addCallback d.name kind callback
      | none => .ok a.interrupt) = .ok b) : Placed a d false b := by
  rcases plainKind_eq_ok hk with ⟨rfl, hs⟩ | ⟨rfl, hs, he⟩
  · cases hc : d.callback with
    | none =>
      rw [hc] at h
      cases h
      exact .folded hc (inEndTag_of_inStartTag hs)
    | some callback =>
      rw [hc] at h
      cases callback with
      | attributes run =>
        cases h
        exact .attributes run hc hs
      | plain run | wrapper run => cases h
  · cases hc : d.callback with
    | none =>
      rw [hc] at h
      cases h
      exact .folded hc he
    | some callback =>
      rw [hc] at h
      cases callback with
      | plain run =>
        cases h
        exact .plain run hc hs he
      | attributes run | wrapper run => cases h

theorem placed_of_wrapperStart {a b : Assembly ω δ} {d : Declaration ω δ}
    (hin : a.reader.interrupt.insideTag = false)
    (h : (match d.callback with
      | some callback => a.interrupt.addCallback d.name .wrapperStart callback
      | none => .ok { a.interrupt with openWrappers := none :: a.openWrappers }) = .ok b) :
    Placed a d true b := by
  cases hc : d.callback with
  | none =>
    rw [hc] at h
    cases h
    exact .foldedWrapper hc hin
  | some callback =>
    rw [hc] at h
    cases callback with
    | wrapper run =>
      cases h
      exact .wrapper run hc hin
    | plain run | attributes run => cases h

/-- A named token uses up the next declaration, adds its static text, and is then
placed. -/
theorem addNamed_eq_ok {a b : Assembly ω δ} {name : String} {isWrapper : Bool} {start : Nat}
    (h : a.addNamed name isWrapper start = .ok b) :
    ∃ d rest r, a.declarations = d :: rest ∧ d.name = name ∧ name ∉ a.seen ∧
      a.reader.feed a.surroundings d.staticHtml.toUTF8.data.toList = (r, none) ∧
      Placed
        { a with
          declarations := rest
          seen := name :: a.seen
          reader := r
          html := a.html ++ d.staticHtml.toUTF8 }
        d isWrapper b := by
  obtain ⟨⟨d, a₁⟩, hd, h⟩ := exists_ok_of_bind h
  obtain ⟨rest, hrest, rfl, hseen, rfl⟩ := takeDeclaration_eq_ok hd
  obtain ⟨a₂, ha₂, h⟩ := exists_ok_of_bind h
  obtain ⟨r, hr, rfl⟩ := addBytes_eq_ok ha₂
  rw [toByteArray_toList] at h
  refine ⟨d, rest, r, hrest, rfl, hseen, hr, ?_⟩
  simp only at h
  cases isWrapper with
  | true =>
    obtain ⟨u, hu, h⟩ := exists_ok_of_bind h
    exact placed_of_wrapperStart (requireOutsideTag_eq_ok hu) h
  | false =>
    obtain ⟨kind, hk, h⟩ := exists_ok_of_bind h
    exact placed_of_plainKind hk h

/-- The static text of a named token that has been added had room. -/
theorem length_static_le_room {a b : Assembly ω δ} {name : String} {isWrapper : Bool}
    {start : Nat} (h : a.addNamed name isWrapper start = .ok b) {d : Declaration ω δ}
    {rest : List (Declaration ω δ)} (hd : a.declarations = d :: rest) :
    d.staticHtml.toUTF8.data.toList.length ≤ a.room := by
  obtain ⟨⟨d', a₁⟩, htake, h⟩ := exists_ok_of_bind h
  obtain ⟨rest', hrest, -, -, rfl⟩ := takeDeclaration_eq_ok htake
  obtain ⟨rfl, -⟩ := List.cons.inj (hd.symm.trans hrest)
  obtain ⟨a₂, hbytes, -⟩ := exists_ok_of_bind h
  -- the declaration that has been taken makes no difference to the room
  have hlength := length_le_room hbytes
  exact hlength

/-- A named token is added, if it can be placed behind the static text of its declaration. -/
theorem addNamed_of_placed {a b : Assembly ω δ} {d : Declaration ω δ}
    {rest : List (Declaration ω δ)} {r : TagReader} {isWrapper : Bool}
    (hd : a.declarations = d :: rest) (hseen : d.name ∉ a.seen)
    (hlength : d.staticHtml.toUTF8.data.toList.length ≤ a.room)
    (hr : a.reader.feed a.surroundings d.staticHtml.toUTF8.data.toList = (r, none))
    (hp : Placed
      { a with
        declarations := rest
        seen := d.name :: a.seen
        reader := r
        html := a.html ++ d.staticHtml.toUTF8 }
      d isWrapper b) (start : Nat) : a.addNamed d.name isWrapper start = .ok b := by
  have htake : a.takeDeclaration d.name =
      .ok (d, { a with declarations := rest, seen := d.name :: a.seen }) := by
    simp [takeDeclaration, hseen, hd]
  have hbytes :=
    addBytes_of_feed (a := { a with declarations := rest, seen := d.name :: a.seen }) hlength hr
  rw [toByteArray_toList] at hbytes
  simp only [addNamed, htake, hbytes, bind, Except.bind, pure, Except.pure]
  cases hp with
  | plain run hc hin hend =>
    simp only [interrupt, plainKind, hin, hend, hc]
    rfl
  | attributes run hc hin =>
    simp only [interrupt, plainKind, hin, hc]
    rfl
  | wrapper run hc hin =>
    simp only [interrupt, requireOutsideTag, hin, hc]
    rfl
  | folded hc hend =>
    simp only [interrupt, plainKind, hend, hc]
    cases r.interrupt.inStartTag <;> rfl
  | foldedWrapper hc hin =>
    simp only [interrupt, requireOutsideTag, hin, hc]
    rfl

/-! ## 3. Edits -/

/-- The changes that additions are made of. -/
inductive Edit (a : Assembly ω δ) : Assembly ω δ → Prop
  | bytes {bytes : List UInt8} {r : TagReader} :
      a.reader.feed a.surroundings bytes = (r, none) →
      Edit a { a with reader := r, html := a.html ++ bytes.toByteArray }
  | declaration (rest : List (Declaration ω δ)) (seen : List String) :
      Edit a { a with declarations := rest, seen := seen }
  | content :
      a.reader.interrupt.insideTag = false → a.content = none →
      Edit a { a with reader := a.reader.interrupt.markContent, content := some a.place }
  | unfold {rest : List (Option Nat)} :
      a.openWrappers = none :: rest → a.reader.interrupt.insideTag = false →
      a.reader.interrupt.crossedAt? rest.length = none →
      Edit a { a with reader := a.reader.interrupt, openWrappers := rest }
  | close {i : Nat} {rest : List (Option Nat)} :
      a.openWrappers = some i :: rest → a.reader.interrupt.insideTag = false →
      a.reader.interrupt.crossedAt? rest.length = none →
      Edit a ({ a with reader := a.reader.interrupt, openWrappers := rest }.closeWrapper i)
  | placed {d : Declaration ω δ} {isWrapper : Bool} {b : Assembly ω δ} :
      Placed a d isWrapper b → Edit a b

theorem edit_of_addContent {a b : Assembly ω δ} {start : Nat} (h : a.addContent start = .ok b) :
    Edit a b := by
  obtain ⟨hin, hc, rfl⟩ := addContent_eq_ok h
  exact .content hin hc

theorem edit_of_addWrapperEnd {a b : Assembly ω δ} {start : Nat}
    (h : a.addWrapperEnd start = .ok b) : Edit a b := by
  obtain ⟨opening, rest, ho, hin, hcross, rfl⟩ := addWrapperEnd_eq_ok h
  cases opening with
  | none => exact .unfold ho hin hcross
  | some i => exact .close ho hin hcross

open Relation in
theorem edits_of_addNamed {a b : Assembly ω δ} {name : String} {isWrapper : Bool} {start : Nat}
    (h : a.addNamed name isWrapper start = .ok b) : ReflTransGen Edit a b := by
  obtain ⟨d, rest, r, -, -, -, hr, hp⟩ := addNamed_eq_ok h
  have hd : Edit a { a with declarations := rest, seen := name :: a.seen } := .declaration _ _
  have hb := Edit.bytes (a := { a with declarations := rest, seen := name :: a.seen }) hr
  rw [toByteArray_toList] at hb
  exact ((ReflTransGen.single hd).tail hb).tail (.placed hp)

open Relation in
/-- Every piece is added by edits. -/
theorem edits_of_addPiece {a b : Assembly ω δ} {p : Piece} (h : a.addPiece p = .ok b) :
    ReflTransGen Edit a b := by
  cases p with
  | text c =>
    obtain ⟨r, hr, rfl⟩ := addBytes_eq_ok h
    exact .single (.bytes hr)
  | token t =>
    obtain ⟨kind, start, stop⟩ := t
    cases kind with
    | content => exact .single (edit_of_addContent h)
    | wrapperEnd => exact .single (edit_of_addWrapperEnd h)
    | wrapperStart name => exact edits_of_addNamed h
    | plain name => exact edits_of_addNamed h

open Relation in
theorem edits_of_foldlM {pieces : List Piece} {a b : Assembly ω δ}
    (h : pieces.foldlM addPiece a = .ok b) : ReflTransGen Edit a b := by
  induction pieces generalizing a with
  | nil =>
    cases h
    exact .refl
  | cons p pieces ih =>
    obtain ⟨a', ha, h⟩ := exists_ok_of_bind h
    exact (edits_of_addPiece ha).trans (ih h)

/-- A pass goes through the assemblies before and behind each of its pieces. -/
theorem foldlM_split {a b : Assembly ω δ} {front back : List Piece} {p : Piece}
    (h : (front ++ p :: back).foldlM addPiece a = .ok b) :
    ∃ a' b', front.foldlM addPiece a = .ok a' ∧ a'.addPiece p = .ok b' ∧
      back.foldlM addPiece b' = .ok b := by
  rw [List.foldlM_append] at h
  obtain ⟨a', ha, h⟩ := exists_ok_of_bind h
  obtain ⟨b', hb, h⟩ := exists_ok_of_bind h
  exact ⟨a', b', ha, hb, h⟩

/-- What holds before the first piece and is kept by every edit holds at the end. -/
theorem invariant_of_foldlM {P : Assembly ω δ → Prop} {pieces : List Piece} {a b : Assembly ω δ}
    (hP : ∀ a b, Edit a b → P a → P b) (h : pieces.foldlM addPiece a = .ok b) (ha : P a) : P b := by
  have hab := edits_of_foldlM h
  clear h
  induction hab with
  | refl => exact ha
  | tail _ hab ih => exact hP _ _ hab ih

/-! ## 4. The number of literal bytes -/

/-- Bytes that are added take up as much of the room as there are. -/
theorem room_of_append {a b : Assembly ω δ} {bytes : List UInt8}
    (h : b.html = a.html ++ bytes.toByteArray) : b.room = a.room - bytes.length := by
  rw [room, room, h, ByteArray.size_append, List.size_toByteArray, Nat.sub_add_eq]

theorem size_append_le {a : Assembly ω δ} {bytes : List UInt8} (ha : a.html.size ≤ literalBound)
    (hlength : bytes.length ≤ a.room) : (a.html ++ bytes.toByteArray).size ≤ literalBound := by
  rw [ByteArray.size_append, List.size_toByteArray]
  exact Nat.add_le_of_le_sub' ha hlength

theorem size_html_le_of_addNamed {a b : Assembly ω δ} {name : String} {isWrapper : Bool}
    {start : Nat} (h : a.addNamed name isWrapper start = .ok b)
    (ha : a.html.size ≤ literalBound) : b.html.size ≤ literalBound := by
  obtain ⟨d, rest, r, hds, -, -, -, hp⟩ := addNamed_eq_ok h
  have hsize := size_append_le ha (length_static_le_room h hds)
  rw [toByteArray_toList] at hsize
  cases hp with
  | plain | attributes | wrapper | folded | foldedWrapper => exact hsize

/-- No piece makes the literal text too long. -/
theorem size_html_le_of_addPiece {a b : Assembly ω δ} {p : Piece} (h : a.addPiece p = .ok b)
    (ha : a.html.size ≤ literalBound) : b.html.size ≤ literalBound := by
  cases p with
  | text c =>
    have hlength := length_le_room h
    obtain ⟨r, -, rfl⟩ := addBytes_eq_ok h
    exact size_append_le ha hlength
  | token t =>
    obtain ⟨kind, start, stop⟩ := t
    cases kind with
    | content =>
      obtain ⟨-, -, rfl⟩ := addContent_eq_ok h
      exact ha
    | wrapperEnd =>
      obtain ⟨opening, rest, -, -, -, rfl⟩ := addWrapperEnd_eq_ok h
      cases opening <;> exact ha
    | wrapperStart name => exact size_html_le_of_addNamed h ha
    | plain name => exact size_html_le_of_addNamed h ha

theorem size_html_le_of_foldlM {a b : Assembly ω δ} {pieces : List Piece}
    (h : pieces.foldlM addPiece a = .ok b) (ha : a.html.size ≤ literalBound) :
    b.html.size ≤ literalBound := by
  induction pieces generalizing a with
  | nil =>
    cases h
    exact ha
  | cons p pieces ih =>
    obtain ⟨a', hp, hrest⟩ := exists_ok_of_bind h
    exact ih hrest (size_html_le_of_addPiece hp ha)

/-! ## 5. The whole pass -/

/-- The template that the assembly is if nothing follows. -/
def template (a : Assembly ω δ) : Template ω δ :=
  { html := a.html, markers := a.markers, elements := a.reader.table.elements }

theorem finish_eq_ok {a : Assembly ω δ} {t : Template ω δ} (h : a.finish = .ok t) :
    a.openWrappers = [] ∧ a.declarations = [] ∧
      a.reader.table.unclosed? a.reader.insideTag = none ∧ t = a.template := by
  unfold finish at h
  cases hw : a.openWrappers with
  | cons w rest =>
    simp only [hw] at h
    cases h
  | nil =>
    refine ⟨rfl, ?_⟩
    simp only [hw] at h
    unfold TagReader.finish at h
    cases hu : a.reader.table.unclosed? a.reader.insideTag with
    | some name =>
      simp only [hu] at h
      cases h
    | none =>
      cases hd : a.declarations with
      | cons d rest =>
        simp only [hu, hd] at h
        cases h
      | nil =>
        simp only [hu, hd] at h
        cases h
        exact ⟨rfl, rfl, rfl⟩

end Assembly

/-- The assembly before the first piece of a source. -/
def Assembly.initial (counts : MarkerCounts) (declarations : List (Declaration ω δ)) :
    Assembly ω δ :=
  { counts := counts, declarations := declarations }

/-- The assembly with which a source is compiled from its first piece on. -/
def Assembly.atStart (source : String) (declarations : List (Declaration ω δ)) : Assembly ω δ :=
  Assembly.initial
    { declared := declarations.length
      found := (Token.ofSource source).countP fun t => t.kind.isNamed }
    declarations

theorem compile?_eq_atStart {source : String} {declarations : List (Declaration ω δ)}
    {a : Assembly ω δ} {t : Template ω δ} (h : compile? source declarations = .ok (a, t)) :
    (pieces source).foldlM Assembly.addPiece (Assembly.atStart source declarations) = .ok a ∧
      a.finish = .ok t := by
  unfold compile? at h
  cases hf : firstRepeated? [] (declarations.map Declaration.name) with
  | some name =>
    simp only [hf] at h
    cases h
  | none =>
    simp only [hf] at h
    obtain ⟨a', ha, h⟩ := exists_ok_of_bind h
    obtain ⟨t', ht, h⟩ := exists_ok_of_bind h
    cases h
    exact ⟨ha, ht⟩

theorem compile?_eq_ok {source : String} {declarations : List (Declaration ω δ)}
    {a : Assembly ω δ} {t : Template ω δ} (h : compile? source declarations = .ok (a, t)) :
    ∃ counts, (pieces source).foldlM Assembly.addPiece (Assembly.initial counts declarations) =
      .ok a ∧ a.finish = .ok t :=
  ⟨_, compile?_eq_atStart h⟩

theorem Component.compile_eq_ok {source : String} {declarations : List (Declaration ω δ)}
    {c : Component ω δ} (h : Component.compile source declarations = .ok c) :
    ∃ a t, compile? source declarations = .ok (a, t) ∧ a.content = none ∧
      c = { template := t, part := .whole, entry := t.start, exit := t.stop,
            maxNesting := a.maxNesting } := by
  obtain ⟨⟨a, t⟩, hc, h⟩ := exists_ok_of_bind h
  refine ⟨a, t, hc, ?_⟩
  simp only at h
  cases ha : a.content with
  | some p =>
    rw [ha] at h
    cases h
  | none =>
    rw [ha] at h
    cases h
    exact ⟨rfl, rfl⟩

/-- Without a content marker, a finished template is one of a component. -/
theorem Component.compile_of_ok {source : String} {declarations : List (Declaration ω δ)}
    {a : Assembly ω δ} {t : Template ω δ} (h : compile? source declarations = .ok (a, t))
    (hcontent : a.content = none) :
    Component.compile source declarations =
      .ok { template := t, part := .whole, entry := t.start, exit := t.stop,
            maxNesting := a.maxNesting } := by
  simp only [Component.compile, h, bind, Except.bind, hcontent]
  rfl

theorem Component.exists_compile_eq_ok {source : String} {declarations : List (Declaration ω δ)}
    {a : Assembly ω δ} {t : Template ω δ} (h : compile? source declarations = .ok (a, t))
    (hcontent : a.content = none) : ∃ c, Component.compile source declarations = .ok c :=
  ⟨_, Component.compile_of_ok h hcontent⟩

theorem Wrapper.compile_eq_ok {source : String} {declarations : List (Declaration ω δ)}
    {w : Wrapper ω δ} (h : Wrapper.compile source declarations = .ok w) :
    ∃ a t content, compile? source declarations = .ok (a, t) ∧ a.content = some content ∧
      w = { template := t, content := content, maxNesting := a.maxNesting } := by
  obtain ⟨⟨a, t⟩, hc, h⟩ := exists_ok_of_bind h
  simp only at h
  cases ha : a.content with
  | none =>
    rw [ha] at h
    cases h
  | some content =>
    rw [ha] at h
    cases h
    exact ⟨a, t, content, hc, ha, rfl⟩

/-- With a content marker, it is one of a wrapper. -/
theorem Wrapper.compile_of_ok {source : String} {declarations : List (Declaration ω δ)}
    {a : Assembly ω δ} {t : Template ω δ} {content : Place}
    (h : compile? source declarations = .ok (a, t)) (hcontent : a.content = some content) :
    Wrapper.compile source declarations =
      .ok { template := t, content := content, maxNesting := a.maxNesting } := by
  simp only [Wrapper.compile, h, bind, Except.bind, hcontent]
  rfl

theorem Wrapper.exists_compile_eq_ok {source : String} {declarations : List (Declaration ω δ)}
    {a : Assembly ω δ} {t : Template ω δ} {content : Place}
    (h : compile? source declarations = .ok (a, t)) (hcontent : a.content = some content) :
    ∃ w, Wrapper.compile source declarations = .ok w :=
  ⟨_, Wrapper.compile_of_ok h hcontent⟩

end HtmlTemplate
