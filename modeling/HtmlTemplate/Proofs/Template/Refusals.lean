import HtmlTemplate.Proofs.Template.Items

/-!
# What is found when a source is refused

Compiling stops at the first fault, in the middle of a pass in which declarations are used
up, elements wait for their end tags and wrappers are open. This module says what has been
found of the assembly when an error is raised, so that no later proof follows an error
through the functions that compile.

Results:
1. `requireOutsideTag_eq_error`, `takeDeclaration_eq_error`, `addCallback_eq_error`: what one
   step refuses.
2. `Assembly.Refuses`: what a piece is refused for. `refuses_of_addPiece`: it is refused
   for nothing else.
3. `finish_eq_error`, `compile?_eq_error`: a source is refused for its declarations, at one
   of its pieces, or behind the last one.
4. `Token.StandsIn`: where in the markup a token stands, said of the source alone.
   `ComesTo.standsIn`: the pass finds it there.
-/

namespace HtmlTemplate

variable {ω δ : Type}

/-- A sequence of two steps fails if the first does, or the second on its result. -/
theorem error_of_bind {ε α β : Type} {x : Except ε α} {f : α → Except ε β} {e : ε}
    (h : x >>= f = .error e) : x = .error e ∨ ∃ a, x = .ok a ∧ f a = .error e := by
  cases x with
  | error e' =>
    cases h
    exact .inl rfl
  | ok a => exact .inr ⟨a, rfl, h⟩

/-- The computation fails with this error. -/
def failsWith {ε α : Type} [DecidableEq ε] (x : Except ε α) (e : ε) : Bool :=
  match x with
  | .error e' => e' = e
  | .ok _ => false

theorem eq_error_of_failsWith {ε α : Type} [DecidableEq ε] {x : Except ε α} {e : ε}
    (h : failsWith x e = true) : x = .error e := by
  cases x with
  | error e' => exact congrArg Except.error (of_decide_eq_true h)
  | ok a => cases h

/-- The kind of callback that a marker takes. -/
def MarkerKind.Takes : MarkerKind → CallbackKind → Prop
  | .plain, kind => kind = .plain
  | .attributes, kind => kind = .attributes
  | .wrapperStart, kind => kind = .wrapper
  | .wrapperEnd, _ => False

/-- The kind of marker that a token with a callback makes in a state of the lexer. -/
def TokenKind.markerKind? (state : TagState) : TokenKind → Option MarkerKind
  | .wrapperStart _ => some .wrapperStart
  | .plain _ => some (if state.inStartTag then .attributes else .plain)
  | .content => none
  | .wrapperEnd => none

namespace Assembly

variable {a b : Assembly ω δ} {e : TemplateError}

/-! ## 1. Single steps -/

theorem addBytes_eq_error {bytes : List UInt8} (h : a.addBytes bytes = .error e) :
    (∃ r name, a.reader.feed a.surroundings bytes = (r, some name) ∧
      e = .wrapperCrossesElement name) ∨
    a.room < bytes.length ∧ e = .tooLarge := by
  rw [addBytes_eq] at h
  split at h
  · split at h
    · cases h
    · next hlong =>
      cases h
      exact .inr ⟨Nat.lt_of_not_le hlong, rfl⟩
  · next r name hr =>
    cases h
    refine .inl ⟨r, name, ?_, rfl⟩
    rw [← List.take_append_drop a.room bytes, TagReader.feed_append, hr]

theorem requireOutsideTag_eq_error {start : Nat} (h : a.requireOutsideTag start = .error e) :
    a.reader.insideTag = true ∧ e = .tokenInsideTag start := by
  unfold requireOutsideTag at h
  split at h
  · next hin =>
    cases h
    exact ⟨hin, rfl⟩
  · cases h

theorem takeDeclaration_eq_error {name : String} (h : a.takeDeclaration name = .error e) :
    (name ∈ a.seen ∧ e = .duplicateName name) ∨
      (a.declarations = [] ∧ e = .markerCount a.counts.declared a.counts.found) ∨
        ∃ d rest, a.declarations = d :: rest ∧ d.name ≠ name ∧ e = .nameOrder d.name name := by
  unfold takeDeclaration at h
  split at h
  · next hseen =>
    cases h
    exact .inl ⟨hseen, rfl⟩
  · split at h
    · next hnil =>
      cases h
      exact .inr (.inl ⟨hnil, rfl⟩)
    · next d rest hd =>
      split at h
      · next hne =>
        cases h
        exact .inr (.inr ⟨d, rest, hd, hne, rfl⟩)
      · cases h

theorem plainKind_eq_error {name : String} (h : a.plainKind name = .error e) :
    a.reader.inEndTag = true ∧ e = .markerInsideEndTag name := by
  unfold plainKind at h
  split at h
  · cases h
  · split at h
    · next hin =>
      cases h
      exact ⟨hin, rfl⟩
    · cases h

theorem addCallback_eq_error {name : String} {kind : MarkerKind} {callback : Callback ω δ}
    (h : a.addCallback name kind callback = .error e) :
    ¬kind.Takes callback.kind ∧ e = .callbackKind name kind callback.kind := by
  cases kind <;> cases callback <;> cases h <;> exact ⟨nofun, rfl⟩

/-! ## 2. Pieces -/

/-- The reader when it has come to a token, behind the static text of that. -/
inductive ComesTo (a : Assembly ω δ) (t : Token) : TagReader → Prop
  | unnamed : t.kind.name? = none → ComesTo a t a.reader
  | named {d : Declaration ω δ} {rest : List (Declaration ω δ)} {r : TagReader} :
      t.kind.name? = some d.name → a.declarations = d :: rest →
      a.reader.feed a.surroundings d.bytes = (r, none) → ComesTo a t r

/-- What a piece may be refused for. -/
inductive Refuses (a : Assembly ω δ) : Piece → TemplateError → Prop
  | insideTag {t : Token} {r : TagReader} :
      (∀ name, t.kind ≠ .plain name) → a.ComesTo t r → r.interrupt.insideTag = true →
      Refuses a (.token t) (.tokenInsideTag t.start)
  | duplicateContent {t : Token} :
      t.kind = .content → a.content.isSome = true → Refuses a (.token t) .duplicateContent
  | unbalanced {t : Token} :
      t.kind = .wrapperEnd → a.openWrappers = [] → Refuses a (.token t) .unbalancedWrapper
  | duplicateName {t : Token} {name : String} :
      t.kind.name? = some name → name ∈ a.seen → Refuses a (.token t) (.duplicateName name)
  /-- A named token behind the last declaration. -/
  | markerCount {t : Token} {name : String} :
      t.kind.name? = some name → a.declarations = [] →
      Refuses a (.token t) (.markerCount a.counts.declared a.counts.found)
  | nameOrder {t : Token} {name : String} {d : Declaration ω δ} {rest : List (Declaration ω δ)} :
      t.kind.name? = some name → a.declarations = d :: rest → d.name ≠ name →
      Refuses a (.token t) (.nameOrder d.name name)
  | insideEndTag {t : Token} {name : String} {r : TagReader} :
      t.kind = .plain name → a.ComesTo t r → r.interrupt.inEndTag = true →
      Refuses a (.token t) (.markerInsideEndTag name)
  | callbackKind {t : Token} {d : Declaration ω δ} {rest : List (Declaration ω δ)}
      {r : TagReader} {callback : Callback ω δ} {kind : MarkerKind} :
      t.kind.name? = some d.name → a.declarations = d :: rest → d.callback = some callback →
      a.ComesTo t r → t.kind.markerKind? r.interrupt.lexer.state = some kind →
      ¬kind.Takes callback.kind →
      Refuses a (.token t) (.callbackKind d.name kind callback.kind)
  /-- An end tag in the text crosses a wrapper. -/
  | crossedText {c : Char} {r : TagReader} {name : String} :
      a.reader.feed a.surroundings (String.utf8EncodeChar c) = (r, some name) →
      Refuses a (.text c) (.wrapperCrossesElement name)
  /-- An end tag in a static text crosses a wrapper. -/
  | crossedStatic {t : Token} {d : Declaration ω δ} {rest : List (Declaration ω δ)}
      {r : TagReader} {name : String} :
      t.kind.name? = some d.name → a.declarations = d :: rest →
      a.reader.feed a.surroundings d.bytes = (r, some name) →
      Refuses a (.token t) (.wrapperCrossesElement name)
  /-- There is no room for the text. -/
  | fullText {c : Char} :
      a.room < (String.utf8EncodeChar c).length → Refuses a (.text c) .tooLarge
  /-- There is no room for a static text. -/
  | fullStatic {t : Token} {d : Declaration ω δ} {rest : List (Declaration ω δ)} :
      t.kind.name? = some d.name → a.declarations = d :: rest → a.room < d.bytes.length →
      Refuses a (.token t) .tooLarge
  /-- A wrapper end crosses an element. -/
  | crossedEnd {t : Token} {opening : Option Nat} {rest : List (Option Nat)} {name : String} :
      t.kind = .wrapperEnd → a.openWrappers = opening :: rest →
      a.reader.interrupt.crossedAt? rest.length = some name →
      Refuses a (.token t) (.wrapperCrossesElement name)

theorem refuses_of_addContent {t : Token} (hk : t.kind = .content)
    (h : a.addContent t.start = .error e) : a.Refuses (.token t) e := by
  have hname : t.kind.name? = none := by rw [hk]; rfl
  rcases error_of_bind h with h | ⟨u, -, h⟩
  · obtain ⟨hin, rfl⟩ := requireOutsideTag_eq_error h
    exact .insideTag (by simp [hk]) (.unnamed hname) hin
  · simp only at h
    split at h
    · next hsome =>
      cases h
      exact .duplicateContent hk hsome
    · cases h

theorem refuses_of_addWrapperEnd {t : Token} (hk : t.kind = .wrapperEnd)
    (h : a.addWrapperEnd t.start = .error e) : a.Refuses (.token t) e := by
  have hname : t.kind.name? = none := by rw [hk]; rfl
  rcases error_of_bind h with h | ⟨u, -, h⟩
  · obtain ⟨hin, rfl⟩ := requireOutsideTag_eq_error h
    exact .insideTag (by simp [hk]) (.unnamed hname) hin
  · simp only [interrupt] at h
    split at h
    · next hnil =>
      cases h
      exact .unbalanced hk hnil
    · next opening rest ho =>
      split at h
      · next name hcross =>
        cases h
        exact .crossedEnd hk ho hcross
      · split at h <;> cases h

theorem refuses_of_addNamed {t : Token} {name : String} {isWrapper : Bool}
    (hk : t.kind = if isWrapper then .wrapperStart name else .plain name)
    (h : a.addNamed name isWrapper t.start = .error e) : a.Refuses (.token t) e := by
  have hname : t.kind.name? = some name := by
    rw [hk]
    cases isWrapper <;> rfl
  rcases error_of_bind h with h | ⟨⟨d, a₁⟩, hd, h⟩
  · rcases takeDeclaration_eq_error h with ⟨hseen, rfl⟩ | ⟨hnil, rfl⟩ | ⟨d, rest, hd, hne, rfl⟩
    · exact .duplicateName hname hseen
    · exact .markerCount hname hnil
    · exact .nameOrder hname hd hne
  · obtain ⟨rest, hrest, rfl, -, rfl⟩ := takeDeclaration_eq_ok hd
    rcases error_of_bind h with h | ⟨a₂, ha₂, h⟩
    · rcases addBytes_eq_error h with ⟨r, other, hr, rfl⟩ | ⟨hfull, rfl⟩
      · exact .crossedStatic hname hrest hr
      · exact .fullStatic hname hrest hfull
    · obtain ⟨r, hr, rfl⟩ := addBytes_eq_ok ha₂
      have hcomes : a.ComesTo t r := .named hname hrest hr
      simp only at h
      cases isWrapper with
      | true =>
        rcases error_of_bind h with h | ⟨u, -, h⟩
        · obtain ⟨hin, rfl⟩ := requireOutsideTag_eq_error h
          exact .insideTag (by simp [hk]) hcomes hin
        · split at h
          · next callback hcallback =>
            obtain ⟨hnot, rfl⟩ := addCallback_eq_error h
            exact .callbackKind hname hrest hcallback hcomes (by rw [hk]; rfl) hnot
          · cases h
      | false =>
        rcases error_of_bind h with h | ⟨kind, hkind, h⟩
        · obtain ⟨hin, rfl⟩ := plainKind_eq_error h
          exact .insideEndTag hk hcomes hin
        · split at h
          · next callback hcallback =>
            obtain ⟨hnot, rfl⟩ := addCallback_eq_error h
            refine .callbackKind hname hrest hcallback hcomes ?_ hnot
            rw [hk]
            rcases plainKind_eq_ok hkind with ⟨rfl, hs⟩ | ⟨rfl, hs, -⟩
            · exact congrArg some (if_pos hs)
            · exact congrArg some (if_neg (Bool.not_eq_true _ ▸ hs))
          · cases h

theorem refuses_of_addPiece {p : Piece} (h : a.addPiece p = .error e) : a.Refuses p e := by
  cases p with
  | text c =>
    rcases addBytes_eq_error h with ⟨r, name, hr, rfl⟩ | ⟨hfull, rfl⟩
    · exact .crossedText hr
    · exact .fullText hfull
  | token t =>
    replace h : a.addToken t = .error e := h
    unfold addToken at h
    split at h
    · next hk => exact refuses_of_addContent hk h
    · next hk => exact refuses_of_addWrapperEnd hk h
    · next name hk =>
      exact refuses_of_addNamed (show t.kind = if true then _ else _ from hk) h
    · next name hk =>
      exact refuses_of_addNamed (show t.kind = if false then _ else _ from hk) h

/-! ## 3. The whole pass -/

/-- A pass fails at one of its pieces. -/
theorem exists_refuses_of_foldlM {pieces : List Piece} (h : pieces.foldlM addPiece a = .error e) :
    ∃ front p back a', pieces = front ++ p :: back ∧ front.foldlM addPiece a = .ok a' ∧
      a'.Refuses p e := by
  induction pieces generalizing a with
  | nil => cases h
  | cons p pieces ih =>
    rcases error_of_bind h with hp | ⟨b, hp, hrest⟩
    · exact ⟨[], p, pieces, a, rfl, rfl, refuses_of_addPiece hp⟩
    · obtain ⟨front, q, back, a', rfl, hfront, hq⟩ := ih hrest
      refine ⟨p :: front, q, back, a', rfl, ?_, hq⟩
      rw [List.foldlM_cons, hp]
      exact hfront

theorem finish_eq_error (h : a.finish = .error e) :
    (a.openWrappers ≠ [] ∧ e = .unbalancedWrapper) ∨
      (a.openWrappers = [] ∧ ∃ name, a.reader.table.unclosed? a.reader.insideTag = some name ∧
        e = .unclosedElement name) ∨
      (a.declarations ≠ [] ∧ e = .markerCount a.counts.declared a.counts.found) := by
  unfold finish at h
  cases hw : a.openWrappers with
  | cons w rest =>
    simp only [hw] at h
    cases h
    exact .inl ⟨nofun, rfl⟩
  | nil =>
    simp only [hw] at h
    unfold TagReader.finish at h
    cases hu : a.reader.table.unclosed? a.reader.insideTag with
    | some name =>
      simp only [hu] at h
      cases h
      exact .inr (.inl ⟨rfl, name, rfl, rfl⟩)
    | none =>
      cases hd : a.declarations with
      | nil =>
        simp only [hu, hd] at h
        cases h
      | cons d rest =>
        simp only [hu, hd] at h
        cases h
        exact .inr (.inr ⟨nofun, rfl⟩)

/-- An element without its end tag is looked for before declarations that are not used. -/
theorem finish_of_unclosed? (hopen : a.openWrappers = []) {name : String}
    (hu : a.reader.table.unclosed? a.reader.insideTag = some name) :
    a.finish = .error (.unclosedElement name) := by
  simp only [finish, hopen, TagReader.finish, hu]
  rfl

end Assembly

/-- A source is refused for the names of its declarations, at one of its pieces, or behind the
last one. -/
theorem compile?_eq_error {source : String} {declarations : List (Declaration ω δ)}
    {e : TemplateError} (h : compile? source declarations = .error e) :
    (∃ name, firstRepeated? [] (declarations.map Declaration.name) = some name ∧
      e = .duplicateName name) ∨
    firstRepeated? [] (declarations.map Declaration.name) = none ∧
      ((∃ front p back a, pieces source = front ++ p :: back ∧
        front.foldlM Assembly.addPiece (Assembly.atStart source declarations) = .ok a ∧
          a.Refuses p e) ∨
      ∃ a, (pieces source).foldlM Assembly.addPiece (Assembly.atStart source declarations) =
        .ok a ∧ a.finish = .error e) := by
  unfold compile? at h
  cases hf : firstRepeated? [] (declarations.map Declaration.name) with
  | some name =>
    simp only [hf] at h
    cases h
    exact .inl ⟨name, rfl, rfl⟩
  | none =>
    simp only [hf] at h
    refine .inr ⟨rfl, ?_⟩
    rcases error_of_bind h with h | ⟨a, ha, h⟩
    · exact .inl (Assembly.exists_refuses_of_foldlM h)
    · rcases error_of_bind h with h | ⟨t, -, h⟩
      · exact .inr ⟨a, ha, h⟩
      · cases h

theorem Component.compile_eq_error {source : String} {declarations : List (Declaration ω δ)}
    {e : TemplateError} (h : Component.compile source declarations = .error e) :
    compile? source declarations = .error e ∨
      ∃ a t, compile? source declarations = .ok (a, t) ∧ a.content.isSome = true ∧
        e = .unexpectedContent := by
  rcases error_of_bind h with h | ⟨⟨a, t⟩, ht, h⟩
  · exact .inl h
  · simp only at h
    split at h
    · next hsome =>
      cases h
      exact .inr ⟨a, t, ht, hsome, rfl⟩
    · cases h

theorem Component.compile_of_compile? {source : String} {declarations : List (Declaration ω δ)}
    {e : TemplateError} (h : compile? source declarations = .error e) :
    Component.compile source declarations = .error e := by
  rw [Component.compile, h]
  rfl

theorem Wrapper.compile_eq_error {source : String} {declarations : List (Declaration ω δ)}
    {e : TemplateError} (h : Wrapper.compile source declarations = .error e) :
    compile? source declarations = .error e ∨
      ∃ a t, compile? source declarations = .ok (a, t) ∧ a.content = none ∧
        e = .missingContent := by
  rcases error_of_bind h with h | ⟨⟨a, t⟩, ht, h⟩
  · exact .inl h
  · simp only at h
    split at h
    · next hnone =>
      cases h
      exact .inr ⟨a, t, ht, hnone, rfl⟩
    · cases h

theorem Wrapper.compile_of_compile? {source : String} {declarations : List (Declaration ω δ)}
    {e : TemplateError} (h : compile? source declarations = .error e) :
    Wrapper.compile source declarations = .error e := by
  rw [Wrapper.compile, h]
  rfl

/-! ## 4. Places of tokens -/

theorem items_append (front back : List Piece) (declarations : List (Declaration ω δ)) :
    items (front ++ back) declarations =
      items front declarations ++ items back (front.foldl Piece.unused declarations) := by
  induction front generalizing declarations with
  | nil => rfl
  | cons p front ih =>
    rw [List.cons_append, items, items, ih, List.append_assoc, List.foldl_cons]

namespace Token

variable {t : Token} {declarations : List (Declaration ω δ)}

/-- The items in front of the place of a token: its static text. -/
def staticItems (declarations : List (Declaration ω δ)) (t : Token) : List Item :=
  (t.items declarations).dropLast

theorem items_of_unnamed (declarations : List (Declaration ω δ)) (h : t.kind.name? = none) :
    ∃ i, t.items declarations = [i] ∧ t.staticItems declarations = [] := by
  obtain ⟨kind, start, stop⟩ := t
  cases kind with
  | content => exact ⟨.content, rfl, rfl⟩
  | wrapperEnd => exact ⟨.closeWrapper, rfl, rfl⟩
  | wrapperStart name | plain name => cases h

theorem items_of_named {d : Declaration ω δ} {rest : List (Declaration ω δ)} {name : String}
    (h : t.kind.name? = some name) (hd : declarations = d :: rest) :
    ∃ i, t.items declarations = d.bytes.map .byte ++ [i] ∧
      t.staticItems declarations = d.bytes.map .byte := by
  obtain ⟨kind, start, stop⟩ := t
  subst hd
  cases kind with
  | content | wrapperEnd => cases h
  | wrapperStart name => exact ⟨.openWrapper, rfl, List.dropLast_concat⟩
  | plain name => exact ⟨.plain d.callback.isSome, rfl, List.dropLast_concat⟩

/-- The token stands in the source where the lexer is in this state. -/
def StandsIn (source : String) (declarations : List (Declaration ω δ)) (t : Token)
    (state : TagState) : Prop :=
  ∃ front back, pieces source = front ++ .token t :: back ∧
    state = ((HtmlTemplate.items front declarations ++
      t.staticItems (front.foldl Piece.unused declarations)).foldl Scan.step
        {}).lexer.interrupt.state

end Token

/-- The reader comes to a token where the scan does. -/
theorem Assembly.ComesTo.lexer_eq {a : Assembly ω δ} {s : Scan} {t : Token} {r : TagReader}
    (h : a.ComesTo t r) (hr : Recounted a s) :
    ((t.staticItems a.declarations).foldl Scan.step s).lexer = r.lexer := by
  cases h with
  | unnamed hname =>
    obtain ⟨i, -, hstatic⟩ := Token.items_of_unnamed a.declarations hname
    rw [hstatic]
    exact hr.recounts.lexer_eq
  | named hname hds hfeed =>
    obtain ⟨i, -, hstatic⟩ := Token.items_of_named hname hds
    rw [hstatic]
    exact (hr.feed hfeed).recounts.lexer_eq

/-- Where a token is refused in a pass over the source, it stands. -/
theorem Assembly.ComesTo.standsIn {source : String} {declarations : List (Declaration ω δ)}
    {a : Assembly ω δ} {t : Token} {r : TagReader} {front back : List Piece} (h : a.ComesTo t r)
    (hpieces : pieces source = front ++ .token t :: back)
    (hfront : front.foldlM addPiece (atStart source declarations) = .ok a) :
    t.StandsIn source declarations r.interrupt.lexer.state := by
  obtain ⟨hunused, hrecounted⟩ := (Recounted.initial _ declarations).of_foldlM hfront
  refine ⟨front, back, hpieces, ?_⟩
  rw [List.foldl_append, show front.foldl Piece.unused declarations = a.declarations from
    hunused.symm]
  exact congrArg (fun l : TagLexer => l.interrupt.state) (h.lexer_eq hrecounted).symm

end HtmlTemplate
