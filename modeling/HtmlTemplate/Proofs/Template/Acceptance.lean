import HtmlTemplate.Proofs.Template.Literals

/-!
# Which sources are accepted

Compiling refuses a source in many places: before the first piece, at each token, and behind
the last one. This module says in one place what a source has to be like.

Results:
1. `Accepted`: the conditions, said of the tokens and declarations alone.
2. `Assembly.Met`: what an assembly keeps of the tokens met so far (`Met.addPiece`).
3. `exists_ok_of_addPiece`: nothing else is refused where no tag is read.
4. `acceptance`: a source that compiles meets the conditions, and its literal text is not
   too long. Without a `<` that is enough.
-/

namespace HtmlTemplate

open Brackets

variable {ω δ : Type}

/-! ## 1. Conditions -/

/-- A token takes callbacks of this kind. -/
def TokenKind.Takes : TokenKind → CallbackKind → Prop
  | .wrapperStart _, kind => kind = .wrapper
  | .plain _, kind => kind = .plain ∨ kind = .attributes
  | .content, _ => False
  | .wrapperEnd, _ => False

/-- The names in the tokens, in order. -/
def tokenNames (tokens : List Token) : List String := tokens.filterMap fun t => t.kind.name?

/-- The number of content tokens. -/
def contentCount (tokens : List Token) : Nat := tokens.countP fun t => t.kind = .content

theorem tokenNames_append (tokens tokens' : List Token) :
    tokenNames (tokens ++ tokens') = tokenNames tokens ++ tokenNames tokens' :=
  List.filterMap_append

theorem tokenNames_cons (t : Token) (tokens : List Token) :
    tokenNames (t :: tokens) = t.kind.name?.toList ++ tokenNames tokens := by
  cases h : t.kind.name? <;> simp [tokenNames, h]

theorem contentCount_append (tokens tokens' : List Token) :
    contentCount (tokens ++ tokens') = contentCount tokens + contentCount tokens' :=
  List.countP_append

theorem contentCount_cons (t : Token) (tokens : List Token) :
    contentCount (t :: tokens) = contentCount tokens + if t.kind = .content then 1 else 0 := by
  by_cases h : t.kind = .content <;> simp [contentCount, h]

/-- The callback of a named token's declaration is of a kind that the token takes. -/
def CallbacksFit (declarations : List (Declaration ω δ)) (tokens : List Token) : Prop :=
  ∀ t ∈ tokens, ∀ d ∈ declarations, t.kind.name? = some d.name →
    ∀ callback, d.callback = some callback → t.kind.Takes callback.kind

/-- The conditions under which a source is accepted as a wrapper, or as a component. -/
structure Accepted (source : String) (declarations : List (Declaration ω δ)) (isWrapper : Bool) :
    Prop where
  nodup : (declarations.map Declaration.name).Nodup
  names_eq : tokenNames (Token.ofSource source) = declarations.map Declaration.name
  balanced : Brackets.Balanced Token.bracket? (Token.ofSource source)
  content_eq : contentCount (Token.ofSource source) = if isWrapper then 1 else 0
  fits : CallbacksFit declarations (Token.ofSource source)

/-- The source compiles as a wrapper, or as a component. -/
def Compiles (source : String) (declarations : List (Declaration ω δ)) : Bool → Prop
  | true => ∃ w, Wrapper.compile source declarations = .ok w
  | false => ∃ c, Component.compile source declarations = .ok c

/-- No byte of the source or of a static text is a `<`, and no callback adds attributes. -/
structure Untagged (source : String) (declarations : List (Declaration ω δ)) : Prop where
  source : '<'.toUInt8 ∉ sourceBytes source
  static : ∀ d ∈ declarations, '<'.toUInt8 ∉ d.bytes
  callback : ∀ d ∈ declarations, ∀ run, d.callback ≠ some (.attributes run)

/-! ## 2. Tokens met so far -/

namespace Assembly

variable {declarations : List (Declaration ω δ)} {tokens : List Token} {a b : Assembly ω δ}

/-- What an assembly keeps of the tokens met so far. -/
structure Met (declarations : List (Declaration ω δ)) (tokens : List Token) (a : Assembly ω δ) :
    Prop where
  names_eq : tokenNames tokens ++ a.declarations.map Declaration.name =
    declarations.map Declaration.name
  seen : ∀ name ∈ a.seen, name ∈ tokenNames tokens
  content_eq : contentCount tokens = if a.content.isSome then 1 else 0
  unused : ∀ d ∈ a.declarations, d ∈ declarations
  fits : CallbacksFit declarations tokens

theorem Placed.takes {d : Declaration ω δ} {isWrapper : Bool} (hp : Placed a d isWrapper b)
    {callback : Callback ω δ} (hc : d.callback = some callback) {kind : TokenKind}
    (hk : kind = if isWrapper then .wrapperStart d.name else .plain d.name) :
    kind.Takes callback.kind := by
  subst hk
  cases hp with
  | plain run hrun =>
    cases hc.symm.trans hrun
    exact .inl rfl
  | attributes run hrun =>
    cases hc.symm.trans hrun
    exact .inr rfl
  | wrapper run hrun =>
    cases hc.symm.trans hrun
    rfl
  | folded hnone | foldedWrapper hnone => cases hc.symm.trans hnone

namespace Met

theorem initial (counts : MarkerCounts) (declarations : List (Declaration ω δ)) :
    Met declarations [] (Assembly.initial counts declarations) :=
  ⟨rfl, nofun, rfl, fun _ hd => hd, nofun⟩

/-- Only some parts of the assembly matter. -/
theorem congr (h : Met declarations tokens a) (hd : b.declarations = a.declarations)
    (hs : b.seen = a.seen) (hc : b.content = a.content) : Met declarations tokens b :=
  ⟨hd ▸ h.names_eq, hs ▸ h.seen, hc ▸ h.content_eq, hd ▸ h.unused, h.fits⟩

/-- The token counts as it changes the content point. -/
theorem contentCount_of_addToken (h : Met declarations tokens a) {t : Token}
    (hb : a.addPiece (.token t) = .ok b) :
    contentCount (tokens ++ [t]) = if b.content.isSome then 1 else 0 := by
  rw [contentCount_append, h.content_eq, contentCount_cons]
  rcases content_of_addPiece hb with ⟨t', heq, hk, hnone, hsome⟩ | ⟨hk, hsame⟩
  · cases heq
    simp [contentCount, hk, hnone, hsome]
  · simp [contentCount, hk t rfl, hsame]

/-- A token without a name uses up no declaration. -/
theorem skip (h : Met declarations tokens a) {t : Token} (hname : t.kind.name? = none)
    (hb : a.addPiece (.token t) = .ok b) (hd : b.declarations = a.declarations)
    (hs : b.seen = a.seen) : Met declarations (tokens ++ [t]) b := by
  refine ⟨?_, ?_, h.contentCount_of_addToken hb, hd ▸ h.unused, ?_⟩
  · rw [tokenNames_append, tokenNames_cons, hname, hd]
    simpa [tokenNames] using h.names_eq
  · rw [tokenNames_append, tokenNames_cons, hname, hs]
    simpa [tokenNames] using h.seen
  · intro t' ht' d hd' hname'
    rcases List.mem_append.mp ht' with hmem | hmem
    · exact h.fits t' hmem d hd' hname'
    · rw [List.mem_singleton.mp hmem, hname] at hname'
      cases hname'

/-- A named token uses up the next declaration. -/
theorem take (h : Met declarations tokens a)
    (hnodup : (declarations.map Declaration.name).Nodup) {t : Token} {d : Declaration ω δ}
    (hname : t.kind.name? = some d.name) (hb : a.addPiece (.token t) = .ok b)
    (hd : a.declarations = d :: b.declarations) (hs : b.seen = d.name :: a.seen)
    (htakes : ∀ callback, d.callback = some callback → t.kind.Takes callback.kind) :
    Met declarations (tokens ++ [t]) b := by
  have hmem : ∀ d' ∈ b.declarations, d' ∈ a.declarations := fun d' hd' =>
    hd ▸ List.mem_cons_of_mem d hd'
  refine ⟨?_, ?_, h.contentCount_of_addToken hb, fun d' hd' => h.unused d' (hmem d' hd'), ?_⟩
  · rw [tokenNames_append, tokenNames_cons, hname, ← h.names_eq, hd]
    simp [tokenNames]
  · intro name hmem'
    rw [tokenNames_append, tokenNames_cons, hname]
    rcases List.mem_cons.mp (hs ▸ hmem') with rfl | hmem'
    · simp
    · exact List.mem_append_left _ (h.seen name hmem')
  · intro t' ht' d' hd' hname'
    rcases List.mem_append.mp ht' with hmem' | hmem'
    · exact h.fits t' hmem' d' hd' hname'
    · rw [List.mem_singleton.mp hmem'] at hname' ⊢
      have hsame : d' = d := List.inj_on_of_nodup_map hnodup hd'
        (h.unused d (hd ▸ List.mem_cons_self)) (Option.some.inj (hname'.symm.trans hname))
      exact hsame ▸ htakes

theorem addNamed (h : Met declarations tokens a)
    (hnodup : (declarations.map Declaration.name).Nodup) {t : Token} {name : String}
    {isWrapper : Bool} (hk : t.kind = if isWrapper then .wrapperStart name else .plain name)
    (hpiece : a.addPiece (.token t) = .ok b) (hb : a.addNamed name isWrapper t.start = .ok b) :
    Met declarations (tokens ++ [t]) b := by
  obtain ⟨d, rest, r, hds, rfl, -, -, hp⟩ := addNamed_eq_ok hb
  have hname : t.kind.name? = some d.name := by
    rw [hk]
    cases isWrapper <;> rfl
  have hkept : b.declarations = rest ∧ b.seen = d.name :: a.seen := by
    cases hp <;> exact ⟨rfl, rfl⟩
  exact h.take hnodup hname hpiece (hkept.1 ▸ hds) hkept.2 fun callback hc => hp.takes hc hk

theorem addToken (h : Met declarations tokens a)
    (hnodup : (declarations.map Declaration.name).Nodup) {t : Token}
    (hb : a.addPiece (.token t) = .ok b) : Met declarations (tokens ++ [t]) b := by
  have htoken : a.addToken t = .ok b := hb
  unfold Assembly.addToken at htoken
  split at htoken
  · next hk =>
    have hname : t.kind.name? = none := by rw [hk]; rfl
    obtain ⟨-, -, hcontent⟩ := addContent_eq_ok htoken
    exact h.skip hname hb (by rw [hcontent]) (by rw [hcontent])
  · next hk =>
    have hname : t.kind.name? = none := by rw [hk]; rfl
    obtain ⟨wrapper, rest, -, -, -, hend⟩ := addWrapperEnd_eq_ok htoken
    cases wrapper with
    | none => exact h.skip hname hb (by rw [hend]) (by rw [hend])
    | some i => exact h.skip hname hb (by rw [hend]; rfl) (by rw [hend]; rfl)
  · next name hk =>
    exact h.addNamed hnodup (show t.kind = if true then _ else _ from hk) hb htoken
  · next name hk =>
    exact h.addNamed hnodup (show t.kind = if false then _ else _ from hk) hb htoken

theorem foldlM {pieces : List Piece} (h : Met declarations tokens a)
    (hnodup : (declarations.map Declaration.name).Nodup)
    (hb : pieces.foldlM addPiece a = .ok b) :
    Met declarations (tokens ++ pieces.filterMap Piece.token?) b := by
  induction pieces generalizing a tokens with
  | nil =>
    cases hb
    simpa using h
  | cons p pieces ih =>
    obtain ⟨a', hp, hrest⟩ := exists_ok_of_bind hb
    cases p with
    | text c =>
      obtain ⟨r, -, ha'⟩ := addBytes_eq_ok hp
      exact ih (h.congr (by rw [ha']) (by rw [ha']) (by rw [ha'])) hrest
    | token t => simpa [Piece.token?] using ih (h.addToken hnodup hp) hrest

end Met

/-- A source that compiles meets the conditions. -/
theorem accepted_of_compile? {source : String} {t : Template ω δ}
    (h : compile? source declarations = .ok (a, t)) :
    Accepted source declarations a.content.isSome := by
  have hnodup := nodup_of_compile? h
  obtain ⟨counts, hfold, hfinish⟩ := compile?_eq_ok h
  obtain ⟨hopen, hdeclarations, -, -⟩ := finish_eq_ok hfinish
  have hmet := (Met.initial counts declarations).foldlM hnodup hfold
  rw [List.nil_append] at hmet
  obtain ⟨opened, htraces⟩ := traces_of_foldlM hnodup hfold
  have hopened : opened = [] := by
    have hstack := htraces.stack
    rw [hopen] at hstack
    exact List.forall₂_nil_right_iff.mp hstack
  refine
    { nodup := hnodup
      names_eq := ?_
      balanced := ⟨htraces.unclosed.neverBelow, ?_⟩
      content_eq := hmet.content_eq
      fits := hmet.fits }
  · have hnames := hmet.names_eq
    rw [hdeclarations, List.map_nil, List.append_nil] at hnames
    exact hnames
  · have hrise := htraces.unclosed.rise_eq
    rw [hopened] at hrise
    exact hrise

/-! ## 3. Nothing else is refused -/

/-- No tag has been met. -/
structure Quiet (a : Assembly ω δ) : Prop where
  text : a.reader.lexer.state = .text
  table : a.reader.table = {}

end Assembly

theorem TagReader.feed_of_text {r : TagReader} (hs : r.lexer.state = .text) (around : Surroundings)
    {bytes : List UInt8} (hb : '<'.toUInt8 ∉ bytes) :
    ∃ r' : TagReader, r.feed around bytes = (r', none) ∧ r'.lexer.state = .text ∧
      r'.table = r.table := by
  induction bytes generalizing r with
  | nil => exact ⟨r, rfl, hs, rfl⟩
  | cons byte bytes ih =>
    have hne : byte ≠ '<'.toUInt8 := fun h => hb (h ▸ List.mem_cons_self)
    have hread : r.lexer.read byte = ({ r.lexer with state := .text }, none) := by
      simp [TagLexer.read, hs, TagLexer.readText, hne]
    have hstep : r.step around byte =
        ({ lexer := { r.lexer with state := .text, offset := r.lexer.offset + 1 },
           table := r.table }, none) := by
      simp [TagReader.step, TagLexer.step, hread]
    obtain ⟨r', hfeed, htext, htable⟩ := ih
      (r := { lexer := { r.lexer with state := .text, offset := r.lexer.offset + 1 },
              table := r.table }) rfl fun h => hb (List.mem_cons_of_mem byte h)
    refine ⟨r', ?_, htext, htable⟩
    rw [TagReader.feed, hstep]
    exact hfeed

namespace Assembly

variable {declarations : List (Declaration ω δ)} {a b : Assembly ω δ}

namespace Quiet

theorem initial (counts : MarkerCounts) (declarations : List (Declaration ω δ)) :
    Quiet (Assembly.initial counts declarations) :=
  ⟨rfl, rfl⟩

theorem state_interrupt (h : Quiet a) : a.reader.interrupt.lexer.state = .text := by
  show a.reader.lexer.state.interrupted = .text
  rw [h.text]
  rfl

/-- A token leaves the reader in text. -/
theorem of_interrupt (h : Quiet a) (hr : b.reader = a.reader.interrupt) : Quiet b :=
  ⟨hr ▸ h.state_interrupt, hr ▸ h.table⟩

theorem inStartTag_interrupt (h : Quiet a) : a.reader.interrupt.inStartTag = false := by
  rw [TagReader.inStartTag, h.state_interrupt]
  rfl

theorem inEndTag_interrupt (h : Quiet a) : a.reader.interrupt.inEndTag = false := by
  rw [TagReader.inEndTag, h.state_interrupt]
  rfl

theorem insideTag_interrupt (h : Quiet a) : a.reader.interrupt.insideTag = false := by
  rw [TagReader.insideTag, h.state_interrupt]
  rfl

theorem addBytes (h : Quiet a) {bytes : List UInt8} (hb : '<'.toUInt8 ∉ bytes)
    (hlength : bytes.length ≤ a.room) : ∃ b, a.addBytes bytes = .ok b ∧ Quiet b := by
  obtain ⟨r, hr, htext, htable⟩ := TagReader.feed_of_text h.text a.surroundings hb
  exact ⟨_, addBytes_of_feed hlength hr, htext, htable.trans h.table⟩

theorem addContent (h : Quiet a) (hc : a.content = none) (start : Nat) :
    ∃ b, a.addContent start = .ok b ∧ Quiet b := by
  refine ⟨_, addContent_of_outside h.insideTag_interrupt hc start, h.state_interrupt, ?_⟩
  show a.reader.table.markContent = {}
  rw [h.table]
  rfl

theorem addWrapperEnd (h : Quiet a) {wrapper : Option Nat} {rest : List (Option Nat)}
    (ho : a.openWrappers = wrapper :: rest) (start : Nat) :
    ∃ b, a.addWrapperEnd start = .ok b ∧ Quiet b := by
  have hcross : a.reader.interrupt.crossedAt? rest.length = none := by
    show a.reader.table.crossedAt? rest.length = none
    rw [h.table]
    rfl
  refine ⟨_, addWrapperEnd_of_outside h.insideTag_interrupt hcross start ho, ?_⟩
  cases wrapper with
  | none | some i => exact h.of_interrupt rfl

/-- A callback of the kind that the token takes in text leaves a marker. -/
theorem exists_placed (h : Quiet a) {d : Declaration ω δ} {isWrapper : Bool}
    (hc : ∀ callback, d.callback = some callback →
      callback.kind = if isWrapper then .wrapper else .plain) :
    ∃ b, Placed a d isWrapper b ∧ Quiet b := by
  cases hcallback : d.callback with
  | none =>
    cases isWrapper with
    | true => exact ⟨_, .foldedWrapper hcallback h.insideTag_interrupt, h.of_interrupt rfl⟩
    | false => exact ⟨_, .folded hcallback h.inEndTag_interrupt, h.of_interrupt rfl⟩
  | some callback =>
    have hkind := hc callback hcallback
    cases isWrapper with
    | true =>
      cases callback with
      | wrapper run => exact ⟨_, .wrapper run hcallback h.insideTag_interrupt, h.of_interrupt rfl⟩
      | plain run | attributes run => cases hkind
    | false =>
      cases callback with
      | plain run =>
        exact ⟨_, .plain run hcallback h.inStartTag_interrupt h.inEndTag_interrupt,
          h.of_interrupt rfl⟩
      | wrapper run | attributes run => cases hkind

/-- The callback fits the token, and adds no attributes. -/
theorem addNamed (h : Quiet a) {d : Declaration ω δ} {rest : List (Declaration ω δ)}
    {isWrapper : Bool} (hd : a.declarations = d :: rest) (hseen : d.name ∉ a.seen)
    (hb : '<'.toUInt8 ∉ d.bytes) (hlength : d.bytes.length ≤ a.room)
    (hc : ∀ callback, d.callback = some callback →
      callback.kind = if isWrapper then .wrapper else .plain) (start : Nat) :
    ∃ b, a.addNamed d.name isWrapper start = .ok b ∧ Quiet b := by
  obtain ⟨r, hr, htext, htable⟩ := TagReader.feed_of_text h.text a.surroundings hb
  have hq : Quiet
      { a with
        declarations := rest
        seen := d.name :: a.seen
        reader := r
        html := a.html ++ d.staticHtml.toUTF8 } := ⟨htext, htable.trans h.table⟩
  obtain ⟨b, hp, hb'⟩ := hq.exists_placed hc
  exact ⟨b, addNamed_of_placed hd hseen hlength hr hp start, hb'⟩

end Quiet

variable {source : String} {isWrapper : Bool} {counts : MarkerCounts} {front back : List Piece}

theorem ofSource_of_split {t : Token} (h : pieces source = front ++ .token t :: back) :
    Token.ofSource source =
      front.filterMap Piece.token? ++ t :: back.filterMap Piece.token? := by
  simp [Token.ofSource, h, Piece.token?]

/-- A content token that counts has not been preceded by another. -/
theorem Met.content_eq_none (hmet : Met declarations (front.filterMap Piece.token?) a)
    (h : Accepted source declarations isWrapper) {t : Token}
    (hpieces : pieces source = front ++ .token t :: back) (hk : t.kind = .content) :
    a.content = none := by
  have hcount := h.content_eq
  rw [ofSource_of_split hpieces, contentCount_append, hmet.content_eq] at hcount
  cases hc : a.content with
  | none => rfl
  | some p =>
    rw [hc] at hcount
    rw [contentCount_cons, if_pos hk, Option.isSome_some] at hcount
    cases isWrapper <;> simp at hcount

/-- A wrapper end that is balanced finds an open wrapper. -/
theorem exists_openWrappers (h : Accepted source declarations isWrapper) {t : Token}
    (hpieces : pieces source = front ++ .token t :: back) (hk : t.kind = .wrapperEnd)
    {opened places : List Nat}
    (htraces : Traces declarations (front.filterMap Piece.token?) a opened places) :
    ∃ wrapper rest, a.openWrappers = wrapper :: rest := by
  have hdepth := h.balanced.neverBelow (front.filterMap Piece.token? ++ [t]) ?_
  · rw [rise_append, htraces.unclosed.rise_eq, htraces.stack.length_eq, rise_cons, rise_nil,
      Token.bracket?, hk] at hdepth
    cases ho : a.openWrappers with
    | nil =>
      rw [ho] at hdepth
      exact absurd hdepth (by decide)
    | cons wrapper rest => exact ⟨wrapper, rest, rfl⟩
  · rw [ofSource_of_split hpieces]
    exact ⟨back.filterMap Piece.token?, by simp⟩

/-- A named token finds its declaration. -/
theorem Met.exists_declaration (hmet : Met declarations (front.filterMap Piece.token?) a)
    (h : Accepted source declarations isWrapper) {t : Token} {name : String}
    (hpieces : pieces source = front ++ .token t :: back) (hname : t.kind.name? = some name) :
    ∃ d rest, a.declarations = d :: rest ∧ d ∈ declarations ∧ d.name = name ∧ name ∉ a.seen := by
  have hnames := h.names_eq
  have hnodup := h.nodup
  rw [ofSource_of_split hpieces, tokenNames_append, tokenNames_cons, hname] at hnames
  have hnext : a.declarations.map Declaration.name =
      name :: tokenNames (back.filterMap Piece.token?) :=
    List.append_cancel_left (hmet.names_eq.trans hnames.symm)
  obtain ⟨d, rest, hd, hdname, -⟩ := List.map_eq_cons_iff.mp hnext
  refine ⟨d, rest, hd, hmet.unused d (hd ▸ List.mem_cons_self), hdname, fun hseen => ?_⟩
  rw [← hnames] at hnodup
  exact (List.nodup_append.mp hnodup).2.2 name (hmet.seen name hseen) name List.mem_cons_self rfl

/-- Every piece is accepted. -/
theorem exists_ok_of_addPiece (h : Accepted source declarations isWrapper)
    (hu : Untagged source declarations) (hfits : LiteralFits source declarations) {p : Piece}
    (hpieces : pieces source = front ++ p :: back)
    (hfront : front.foldlM addPiece (Assembly.initial counts declarations) = .ok a)
    (hq : Quiet a) : ∃ b, a.addPiece p = .ok b ∧ Quiet b := by
  have hmet := (Met.initial counts declarations).foldlM h.nodup hfront
  rw [List.nil_append] at hmet
  obtain ⟨opened, htraces⟩ := traces_of_foldlM h.nodup hfront
  have hroom := length_literal_le_room h.nodup hfits hpieces hfront
  cases p with
  | text c =>
    refine hq.addBytes (fun hb => hu.source ?_) hroom
    exact (covers_pieces source).mem_of_text (by simp [hpieces]) hb
  | token t =>
    have hmem : t ∈ Token.ofSource source := by simp [ofSource_of_split hpieces]
    -- Of the callbacks that a token takes, only those that add attributes are left out.
    have hnamed : ∀ (name : String) (isStart : Bool),
        t.kind = (if isStart then .wrapperStart name else .plain name) →
          ∃ b, a.addNamed name isStart t.start = .ok b ∧ Quiet b := by
      intro name isStart hk
      have hname : t.kind.name? = some name := by
        rw [hk]
        cases isStart <;> rfl
      obtain ⟨d, rest, hds, hd, rfl, hseen⟩ := hmet.exists_declaration h hpieces hname
      rw [Piece.literal, Token.replacement, declaration?_eq_some h.nodup hd hname] at hroom
      refine hq.addNamed hds hseen (hu.static d hd) hroom (fun callback hc => ?_) t.start
      have htakes := h.fits t hmem d hd hname callback hc
      rw [hk] at htakes
      cases isStart with
      | true => exact htakes
      | false =>
        rcases htakes with hplain | hattributes
        · exact hplain
        · cases callback with
          | attributes run => exact absurd hc (hu.callback d hd run)
          | plain run | wrapper run => cases hattributes
    show ∃ b, a.addToken t = .ok b ∧ Quiet b
    unfold Assembly.addToken
    split
    · next hk => exact hq.addContent (hmet.content_eq_none h hpieces hk) t.start
    · next hk =>
      obtain ⟨wrapper, rest, ho⟩ := exists_openWrappers h hpieces hk htraces
      exact hq.addWrapperEnd ho t.start
    · next name hk => exact hnamed name true hk
    · next name hk => exact hnamed name false hk

/-- A pass succeeds if every piece does, as long as what has been kept up to it. -/
theorem exists_ok_of_foldlM {P : Assembly ω δ → Prop} {pieces : List Piece} (ha : P a)
    (h : ∀ front p back a', pieces = front ++ p :: back → front.foldlM addPiece a = .ok a' →
      P a' → ∃ b, a'.addPiece p = .ok b ∧ P b) :
    ∃ b, pieces.foldlM addPiece a = .ok b ∧ P b := by
  have hprefix : ∀ front back, pieces = front ++ back →
      ∃ b, front.foldlM addPiece a = .ok b ∧ P b := by
    intro front
    induction front using List.reverseRecOn with
    | nil => exact fun back _ => ⟨a, rfl, ha⟩
    | append_singleton front p ih =>
      intro back hsplit
      rw [List.append_assoc] at hsplit
      obtain ⟨a', hfront, ha'⟩ := ih _ hsplit
      obtain ⟨b, hp, hb⟩ := h front p back a' hsplit hfront ha'
      refine ⟨b, ?_, hb⟩
      rw [List.foldlM_append, hfront]
      show [p].foldlM addPiece a' = .ok b
      rw [List.foldlM_cons, hp]
      rfl
  exact hprefix pieces [] (List.append_nil _).symm

/-- Behind the last piece nothing is left over. -/
theorem exists_ok_of_finish (h : Accepted source declarations isWrapper)
    (hfold : (pieces source).foldlM addPiece (Assembly.initial counts declarations) = .ok a)
    (hq : Quiet a) : a.finish = .ok a.template ∧ a.content.isSome = isWrapper := by
  have hmet := (Met.initial counts declarations).foldlM h.nodup hfold
  rw [List.nil_append] at hmet
  obtain ⟨opened, htraces⟩ := traces_of_foldlM h.nodup hfold
  have hopen : a.openWrappers = [] := by
    have hrise := htraces.unclosed.rise_eq.symm.trans h.balanced.rise_eq
    rw [htraces.stack.length_eq] at hrise
    exact List.length_eq_zero_iff.mp (Int.ofNat_eq_zero.mp hrise)
  have hdeclarations : a.declarations = [] := by
    have hnames := hmet.names_eq.trans h.names_eq.symm
    exact List.map_eq_nil_iff.mp (List.append_right_eq_self.mp hnames)
  have hreader : a.reader.finish = .ok a.reader.table.elements := by
    rw [TagReader.finish, TagReader.insideTag, hq.text, hq.table]
    rfl
  constructor
  · simp only [finish, hopen, hreader, hdeclarations]
    rfl
  · have hcount := hmet.content_eq.symm.trans h.content_eq
    cases hc : a.content.isSome <;> rw [hc] at hcount <;> cases isWrapper
    · rfl
    · exact absurd hcount (by decide)
    · exact absurd hcount (by decide)
    · rfl

/-- A source that meets the conditions compiles, if no tag is read in it and its literal text
fits. -/
theorem exists_eq_ok_of_accepted (h : Accepted source declarations isWrapper)
    (hu : Untagged source declarations) (hfits : LiteralFits source declarations) :
    ∃ a t, compile? source declarations = .ok (a, t) ∧ a.content.isSome = isWrapper := by
  obtain ⟨a, hfold, hq⟩ : ∃ a, (pieces source).foldlM addPiece (atStart source declarations) =
      .ok a ∧ Quiet a :=
    exists_ok_of_foldlM (.initial _ declarations) fun _ _ _ _ hsplit hfront hq =>
      exists_ok_of_addPiece h hu hfits hsplit hfront hq
  obtain ⟨hfinish, hcontent⟩ := exists_ok_of_finish h hfold hq
  exact ⟨a, a.template, compile?_of_pass h.nodup hfold hfinish, hcontent⟩

end Assembly

/-! ## 4. All sources -/

theorem accepted_of_compiles {source : String} {declarations : List (Declaration ω δ)}
    {isWrapper : Bool} (h : Compiles source declarations isWrapper) :
    Accepted source declarations isWrapper ∧ LiteralFits source declarations := by
  cases isWrapper with
  | true =>
    obtain ⟨w, hw⟩ := h
    obtain ⟨a, t, content, ht, hcontent, -⟩ := Wrapper.compile_eq_ok hw
    have haccepted := Assembly.accepted_of_compile? ht
    rw [hcontent] at haccepted
    exact ⟨haccepted, Assembly.literalFits_of_compile? ht⟩
  | false =>
    obtain ⟨c, hc⟩ := h
    obtain ⟨a, t, ht, hcontent, -⟩ := Component.compile_eq_ok hc
    have haccepted := Assembly.accepted_of_compile? ht
    rw [hcontent] at haccepted
    exact ⟨haccepted, Assembly.literalFits_of_compile? ht⟩

theorem compiles_of_accepted {source : String} {declarations : List (Declaration ω δ)}
    {isWrapper : Bool} (h : Accepted source declarations isWrapper)
    (hu : Untagged source declarations) (hfits : LiteralFits source declarations) :
    Compiles source declarations isWrapper := by
  obtain ⟨a, t, ht, hcontent⟩ := Assembly.exists_eq_ok_of_accepted h hu hfits
  cases isWrapper with
  | true =>
    obtain ⟨p, hp⟩ := Option.isSome_iff_exists.mp hcontent
    exact Wrapper.exists_compile_eq_ok ht hp
  | false =>
    have hnone : a.content = none :=
      Option.isNone_iff_eq_none.mp (Option.isSome_eq_false_iff.mp hcontent)
    exact Component.exists_compile_eq_ok ht hnone

/-- A source compiles only if it meets the conditions and its literal text fits, and if no tag is
read in it that is enough. -/
theorem acceptance (source : String) (declarations : List (Declaration ω δ))
    (isWrapper : Bool) :
    (Compiles source declarations isWrapper →
      Accepted source declarations isWrapper ∧ LiteralFits source declarations) ∧
    (Untagged source declarations → LiteralFits source declarations →
      Accepted source declarations isWrapper → Compiles source declarations isWrapper) :=
  ⟨accepted_of_compiles, fun hu hfits h => compiles_of_accepted h hu hfits⟩

/-- The source `${{quote}a${name}: ${}}}`. -/
def quotedSource : String :=
  "$\x7b\x7bquote\x7da$\x7bname\x7d: $\x7b\x7d\x7d\x7d"

/-- Its declarations, the second with a static text. -/
def quoted : List (Declaration Unit Unit) :=
  [.wrapper "quote" fun _ => pure (), (Declaration.plain "name" fun _ => pure ()).withStatic "by "]

theorem untagged_quoted : Untagged quotedSource quoted where
  source := by decide +kernel
  static := by decide +kernel
  callback := by
    intro d hd run
    rcases List.mem_cons.mp hd with rfl | hd
    · nofun
    · rw [List.mem_singleton.mp hd]
      nofun

theorem acceptance_of_quoted :
    Accepted quotedSource quoted true ∧ LiteralFits quotedSource quoted ∧
      Untagged quotedSource quoted ∧ Compiles quotedSource quoted true := by
  have hcompiles : Compiles quotedSource quoted true :=
    exists_eq_ok (by decide +kernel)
  obtain ⟨haccepted, hfits⟩ := (acceptance quotedSource quoted true).1 hcompiles
  exact ⟨haccepted, hfits, untagged_quoted,
    (acceptance quotedSource quoted true).2 untagged_quoted hfits haccepted⟩

end HtmlTemplate
