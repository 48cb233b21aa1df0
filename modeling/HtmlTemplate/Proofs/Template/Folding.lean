import HtmlTemplate.Proofs.Template.Acceptance
import HtmlTemplate.Proofs.Template.Cutting
import HtmlTemplate.Proofs.Template.Undisturbed

/-!
# Folded declarations

A declaration without a callback is folded: its token leaves its static text, and no marker. But it
is a token, and the lexer is interrupted at it. This ends a tag name, makes text of a `<`, and takes
back a slash, although nothing in the literal bytes does. So the static text alone, in the place of
the token, may be read otherwise.

It is read alike if the lexers `Meet` again: behind the text one of them has been interrupted, and
up to the next token both report the same tags. Then the source with the text in the place of the
token compiles to the same template.

Results:
1. `TagLexer.Meet`: how far lexers may differ.
2. `Assembly.Twin`: assemblies that differ in lexers and in what they keep of declarations. Each
   piece keeps them twins (`Twin.addPiece`, `Twin.foldlM`).
3. `Folds.twin`: static text leaves a twin of what a token leaves.
   `compile?_of_folds`, `folding_is_textual`: compiled templates. Without lexers that meet this is
   wrong (`folding_is_not_textual`).
-/

namespace HtmlTemplate

variable {ω δ : Type}

/-! ## 1. Lexers that meet again -/

/-- The lexers report the same tags up to the next token, which makes them alike. If no token
follows, then both end in a tag or none does. -/
def TagLexer.Meet : List Item → TagLexer → TagLexer → Prop
  | [], l, l' => l.state.insideTag = l'.state.insideTag
  | .byte byte :: rest, l, l' =>
    (l.step byte).2 = (l'.step byte).2 ∧ Meet rest (l.step byte).1 (l'.step byte).1
  | _ :: _, l, l' => l.interrupt = l'.interrupt

instance TagLexer.decidableMeet : ∀ rest l l', Decidable (TagLexer.Meet rest l l')
  | [], _, _ => inferInstanceAs (Decidable (_ = _))
  | .byte byte :: rest, l, l' =>
    have := TagLexer.decidableMeet rest (l.step byte).1 (l'.step byte).1
    inferInstanceAs (Decidable (_ ∧ _))
  | .content :: _, _, _ | .openWrapper :: _, _, _ | .closeWrapper :: _, _, _
  | .plain _ :: _, _, _ => inferInstanceAs (Decidable (_ = _))

/-- What lexers may differ in while items are read, if it is to make no difference. -/
structure Lasting (rel : List Item → TagLexer → TagLexer → Prop) : Prop where
  refl : ∀ rest l, rel rest l l
  byte : ∀ byte rest l l', rel (.byte byte :: rest) l l' →
    (l.step byte).2 = (l'.step byte).2 ∧ rel rest (l.step byte).1 (l'.step byte).1
  token : ∀ i rest l l', i.byte? = none → rel (i :: rest) l l' → l.interrupt = l'.interrupt
  last : ∀ l l', rel [] l l' → l.state.insideTag = l'.state.insideTag

theorem lasting_eq : Lasting fun _ l l' => l = l' where
  refl _ _ := rfl
  byte _ _ _ _ h := h ▸ ⟨rfl, rfl⟩
  token _ _ _ _ _ h := h ▸ rfl
  last _ _ h := h ▸ rfl

theorem lasting_meet : Lasting TagLexer.Meet where
  refl rest := by
    induction rest with
    | nil => exact fun _ => rfl
    | cons i rest ih =>
      intro l
      cases i with
      | byte byte => exact ⟨rfl, ih _⟩
      | content | openWrapper | closeWrapper | plain kept => rfl
  byte _ _ _ _ h := h
  token i _ _ _ hi h := by
    cases i with
    | byte byte => cases hi
    | content | openWrapper | closeWrapper | plain kept => exact h
  last _ _ h := h

/-- A reader with another lexer, which reports the same tag. -/
theorem TagReader.step_lexer {r : TagReader} {l : TagLexer} {byte : UInt8}
    (htag : (r.lexer.step byte).2 = (l.step byte).2) (around : Surroundings) :
    TagReader.step { r with lexer := l } around byte =
      ({ (r.step around byte).1 with lexer := (l.step byte).1 }, (r.step around byte).2) := by
  obtain ⟨lexer, table⟩ := r
  simp only at htag
  unfold TagReader.step
  simp only
  rcases hstep : lexer.step byte with ⟨next, tag⟩
  rcases hstep' : l.step byte with ⟨next', tag'⟩
  obtain rfl : tag = tag' := by
    rw [hstep, hstep'] at htag
    exact htag
  cases tag <;> rfl

/-- A reader goes on with the other lexer as it does with its own. -/
theorem Lasting.feed {rel : List Item → TagLexer → TagLexer → Prop} (hrel : Lasting rel)
    {r q : TagReader} {around : Surroundings} {bytes : List UInt8} {rest : List Item}
    {l : TagLexer} (h : rel (bytes.map .byte ++ rest) r.lexer l)
    (hfeed : r.feed around bytes = (q, none)) :
    ∃ l', TagReader.feed { r with lexer := l } around bytes = ({ q with lexer := l' }, none) ∧
      rel rest q.lexer l' := by
  induction bytes generalizing r l with
  | nil =>
    cases hfeed
    exact ⟨l, rfl, h⟩
  | cons byte bytes ih =>
    obtain ⟨htag, hnext⟩ := hrel.byte _ _ _ _ h
    rw [TagReader.feed] at hfeed
    rw [TagReader.feed, TagReader.step_lexer htag]
    rcases hstep : r.step around byte with ⟨next, crossed⟩
    rw [hstep] at hfeed
    cases crossed with
    | some name => cases hfeed
    | none =>
      have hlexer := r.lexer_step around byte
      rw [hstep] at hlexer
      exact ih (hlexer ▸ hnext) hfeed

/-! ## 2. Twins -/

namespace Assembly

variable {a b : Assembly ω δ}

/-- The assembly with other declarations and another lexer. -/
def retold (a : Assembly ω δ) (counts : MarkerCounts) (declarations : List (Declaration ω δ))
    (seen : List String) (lexer : TagLexer) : Assembly ω δ :=
  { a with
    counts := counts
    declarations := declarations
    seen := seen
    reader := { a.reader with lexer := lexer } }

/-- An assembly that these pieces are added to, and one that does as well. Only the lexers differ,
as `rel` says, and the declarations behind those that the pieces use up. -/
inductive Twin (rel : List Item → TagLexer → TagLexer → Prop) (tail tail' : List (Declaration ω δ))
    (pieces : List Piece) (a a' : Assembly ω δ) : Prop
  | intro (left : List (Declaration ω δ)) (counts : MarkerCounts) (seen : List String)
      (lexer : TagLexer) :
      a' = a.retold counts (left ++ tail') seen lexer →
      a.declarations = left ++ tail →
      left.map Declaration.name = tokenNames (pieces.filterMap Piece.token?) →
      seen ⊆ a.seen →
      rel (items pieces a.declarations) a.reader.lexer lexer →
      Twin rel tail tail' pieces a a'

section

variable {lexer : TagLexer} (hlexer : a.reader.lexer.interrupt = lexer.interrupt)
  (counts : MarkerCounts) (declarations : List (Declaration ω δ)) (seen : List String)

include hlexer

theorem reader_interrupt_retold :
    (a.retold counts declarations seen lexer).reader.interrupt = a.reader.interrupt := by
  rw [TagReader.interrupt, TagReader.interrupt, hlexer]
  rfl

/-- A token makes the lexers alike. -/
theorem interrupt_retold : (a.retold counts declarations seen lexer).interrupt =
    a.interrupt.retold counts declarations seen a.reader.lexer.interrupt := by
  rw [interrupt, reader_interrupt_retold hlexer]
  rfl

theorem Placed.retold {d : Declaration ω δ} {isWrapper : Bool} (hp : Placed a d isWrapper b) :
    Placed (a.retold counts declarations seen lexer) d isWrapper
      (b.retold counts declarations seen b.reader.lexer) := by
  have hreader := reader_interrupt_retold hlexer counts declarations seen
  have hinterrupt := interrupt_retold hlexer counts declarations seen
  cases hp with
  | plain run hc hin hend =>
    have hplain := Placed.plain (a := a.retold counts declarations seen lexer) run hc
      (hreader ▸ hin) (hreader ▸ hend)
    rwa [hinterrupt] at hplain
  | attributes run hc hin =>
    have hattributes := Placed.attributes (a := a.retold counts declarations seen lexer) run hc
      (hreader ▸ hin)
    rwa [hreader] at hattributes
  | wrapper run hc hin =>
    have hwrapper := Placed.wrapper (a := a.retold counts declarations seen lexer) run hc
      (hreader ▸ hin)
    rwa [hinterrupt] at hwrapper
  | folded hc hend =>
    have hfolded := Placed.folded (a := a.retold counts declarations seen lexer) hc
      (hreader ▸ hend)
    rwa [hinterrupt] at hfolded
  | foldedWrapper hc hin =>
    have hfolded := Placed.foldedWrapper (a := a.retold counts declarations seen lexer) hc
      (hreader ▸ hin)
    rwa [hinterrupt] at hfolded

end

namespace Twin

variable {rel : List Item → TagLexer → TagLexer → Prop} {tail tail' : List (Declaration ω δ)}
  {rest : List Piece} {a' : Assembly ω δ} {start stop : Nat}

/-- Behind a token the lexers are the same. -/
theorem of_retold (hrel : Lasting rel) {left : List (Declaration ω δ)} {counts : MarkerCounts}
    {seen : List String} (ha' : a' = b.retold counts (left ++ tail') seen b.reader.lexer)
    (hd : b.declarations = left ++ tail)
    (hnames : left.map Declaration.name = tokenNames (rest.filterMap Piece.token?))
    (hseen : seen ⊆ b.seen) : Twin rel tail tail' rest b a' :=
  .intro left counts seen b.reader.lexer ha' hd hnames hseen (hrel.refl _ _)

theorem addText (hrel : Lasting rel) {c : Char} (h : Twin rel tail tail' (.text c :: rest) a a')
    (hb : a.addPiece (.text c) = .ok b) :
    ∃ b', a'.addPiece (.text c) = .ok b' ∧ Twin rel tail tail' rest b b' := by
  have hroom := length_le_room hb
  obtain ⟨r, hr, rfl⟩ := addBytes_eq_ok hb
  obtain ⟨left, counts, seen, lexer, rfl, hd, hnames, hseen, hlexers⟩ := h
  obtain ⟨lexer', hfeed, hnext⟩ := hrel.feed hlexers hr
  exact ⟨_, addBytes_of_feed hroom hfeed,
    .intro left counts seen lexer' rfl hd hnames hseen hnext⟩

theorem addContent (hrel : Lasting rel)
    (h : Twin rel tail tail' (.token ⟨.content, start, stop⟩ :: rest) a a')
    (hb : a.addContent start = .ok b) (start' : Nat) :
    ∃ b', a'.addContent start' = .ok b' ∧ Twin rel tail tail' rest b b' := by
  obtain ⟨hin, hc, rfl⟩ := addContent_eq_ok hb
  obtain ⟨left, counts, seen, lexer, rfl, hd, hnames, hseen, hlexers⟩ := h
  have hreader := reader_interrupt_retold (hrel.token .content _ _ _ rfl hlexers) counts
    (left ++ tail') seen
  have hadded := addContent_of_outside (a := a.retold counts (left ++ tail') seen lexer)
    (hreader ▸ hin) hc start'
  rw [hreader] at hadded
  exact ⟨_, hadded, of_retold hrel rfl hd hnames hseen⟩

theorem addWrapperEnd (hrel : Lasting rel)
    (h : Twin rel tail tail' (.token ⟨.wrapperEnd, start, stop⟩ :: rest) a a')
    (hb : a.addWrapperEnd start = .ok b) (start' : Nat) :
    ∃ b', a'.addWrapperEnd start' = .ok b' ∧ Twin rel tail tail' rest b b' := by
  obtain ⟨opening, outer, ho, hin, hcross, rfl⟩ := addWrapperEnd_eq_ok hb
  obtain ⟨left, counts, seen, lexer, rfl, hd, hnames, hseen, hlexers⟩ := h
  have hreader := reader_interrupt_retold (hrel.token .closeWrapper _ _ _ rfl hlexers) counts
    (left ++ tail') seen
  have hadded := addWrapperEnd_of_outside (a := a.retold counts (left ++ tail') seen lexer)
    (hreader ▸ hin) (hreader ▸ hcross) start' ho
  rw [hreader] at hadded
  cases opening with
  | none => exact ⟨_, hadded, of_retold hrel rfl hd hnames hseen⟩
  | some i => exact ⟨_, hadded, of_retold hrel rfl hd hnames hseen⟩

theorem addNamed (hrel : Lasting rel) {kind : TokenKind} {name : String} {isWrapper : Bool}
    (hk : kind = if isWrapper then .wrapperStart name else .plain name)
    (h : Twin rel tail tail' (.token ⟨kind, start, stop⟩ :: rest) a a')
    (hb : a.addNamed name isWrapper start = .ok b) (start' : Nat) :
    ∃ b', a'.addNamed name isWrapper start' = .ok b' ∧ Twin rel tail tail' rest b b' := by
  obtain ⟨d, unused, r, hds, rfl, hfresh, hr, hp⟩ := addNamed_eq_ok hb
  have hlength := length_static_le_room hb hds
  obtain ⟨left, counts, seen, lexer, rfl, hd, hnames, hseen, hlexers⟩ := h
  -- the first declaration that is left stands in front of the tail, so both use it up
  have hfirst : left.map Declaration.name =
      d.name :: tokenNames (rest.filterMap Piece.token?) := by
    rw [hnames, hk]
    cases isWrapper <;> rfl
  obtain ⟨d', left, rfl, -, hnames'⟩ := List.map_eq_cons_iff.mp hfirst
  obtain ⟨rfl, rfl⟩ := List.cons.inj (hds.symm.trans hd)
  have hitems : items (.token ⟨kind, start, stop⟩ :: rest) a.declarations = d.bytes.map .byte ++
      ((if isWrapper then .openWrapper else .plain d.callback.isSome) ::
        items rest (left ++ tail)) := by
    rw [hds, hk]
    cases isWrapper <;> simp [items, Piece.items, Token.items, Piece.unused, TokenKind.isNamed,
      TokenKind.name?]
  rw [hitems] at hlexers
  obtain ⟨lexer', hfeed, hnext⟩ := hrel.feed hlexers hr
  have hplaced := Placed.retold (hrel.token _ _ _ _ (by cases isWrapper <;> rfl) hnext) counts
    (left ++ tail') (d.name :: seen) hp
  have hkept : b.declarations = left ++ tail ∧ b.seen = d.name :: a.seen := by
    cases hp <;> exact ⟨rfl, rfl⟩
  have hunseen : d.name ∉ seen := fun hmem => hfresh (hseen hmem)
  have hadded := addNamed_of_placed (a := a.retold counts (d :: left ++ tail') seen lexer) rfl
    hunseen hlength hfeed hplaced start'
  refine ⟨_, hadded, ?_⟩
  exact of_retold hrel rfl hkept.1 hnames' (hkept.2 ▸ List.cons_subset_cons _ hseen)

/-- Each piece is added to both or to none. -/
theorem addPiece (hrel : Lasting rel) {p p' : Piece} (h : Twin rel tail tail' (p :: rest) a a')
    (hp : p.Alike p') (hb : a.addPiece p = .ok b) :
    ∃ b', a'.addPiece p' = .ok b' ∧ Twin rel tail tail' rest b b' := by
  cases hp with
  | text c => exact h.addText hrel hb
  | @token t t' hkind =>
    obtain ⟨kind, start, stop⟩ := t
    obtain ⟨kind', start', stop'⟩ := t'
    obtain rfl : kind = kind' := hkind
    cases kind with
    | content => exact h.addContent hrel hb start'
    | wrapperEnd => exact h.addWrapperEnd hrel hb start'
    | wrapperStart name =>
      exact h.addNamed hrel (show _ = if true then _ else _ from rfl) hb start'
    | plain name => exact h.addNamed hrel (show _ = if false then _ else _ from rfl) hb start'

theorem foldlM (hrel : Lasting rel) {pieces pieces' : List Piece}
    (h : Twin rel tail tail' pieces a a') (hp : List.Forall₂ Piece.Alike pieces pieces')
    (hb : pieces.foldlM Assembly.addPiece a = .ok b) :
    ∃ b', pieces'.foldlM Assembly.addPiece a' = .ok b' ∧ Twin rel tail tail' [] b b' := by
  induction hp generalizing a a' with
  | nil =>
    cases hb
    exact ⟨a', rfl, h⟩
  | cons hfirst _ ih =>
    obtain ⟨c, hc, hrest⟩ := exists_ok_of_bind hb
    obtain ⟨c', hc', hnext⟩ := h.addPiece hrel hfirst hc
    obtain ⟨b', hb', hlast⟩ := ih hnext hrest
    refine ⟨b', ?_, hlast⟩
    rw [List.foldlM_cons, hc']
    exact hb'

end Twin

/-- Twins that nothing is added to are finished alike. -/
theorem Twin.finish {a' : Assembly ω δ} {t : Template ω δ}
    (h : Twin TagLexer.Meet [] [] [] a a') (ht : a.finish = .ok t) :
    a'.finish = .ok t ∧ a'.content = a.content ∧ a'.maxNesting = a.maxNesting := by
  obtain ⟨hopen, hdeclarations, hunclosed, rfl⟩ := finish_eq_ok ht
  obtain ⟨left, counts, seen, lexer, rfl, hd, hnames, -, hlexers⟩ := h
  obtain rfl : left = [] := List.map_eq_nil_iff.mp hnames
  have hinside : a.reader.insideTag = lexer.state.insideTag := hlexers
  refine ⟨?_, rfl, rfl⟩
  have hreader : TagReader.finish { a.reader with lexer := lexer } =
      .ok a.reader.table.elements := by
    rw [hinside] at hunclosed
    simp only [TagReader.finish, TagReader.insideTag, hunclosed]
  simp only [Assembly.finish, retold, hopen, hreader]
  rfl

end Assembly

/-! ## 3. Static text in the place of a token -/

/-- Pieces have the same items wherever they stand. -/
theorem items_of_alike {pieces pieces' : List Piece} (h : List.Forall₂ Piece.Alike pieces pieces')
    (declarations : List (Declaration ω δ)) :
    items pieces declarations = items pieces' declarations := by
  induction h generalizing declarations with
  | nil => rfl
  | @cons p p' rest rest' hfirst _ ih =>
    have hsame : p.items declarations = p'.items declarations ∧
        p.unused declarations = p'.unused declarations := by
      cases hfirst with
      | text c => exact ⟨rfl, rfl⟩
      | token hkind => simp [Piece.items, Token.items, Piece.unused, hkind]
    rw [items, items, hsame.1, hsame.2, ih]

/-- The lexer behind a source and a text. -/
def lexerBehind (source : String) (declarations : List (Declaration ω δ)) (text : List UInt8) :
    TagLexer :=
  ((items (pieces source) declarations ++ text.map Item.byte).foldl Scan.step {}).lexer

/-- The token of a declaration without a callback stands between `front` and `back`, and the
source may have the static text in its place. -/
structure Folds (front back : String) (before : List (Declaration ω δ)) (d : Declaration ω δ)
    (behind : List (Declaration ω δ)) : Prop where
  name : Token.IsName d.name.toList
  callback : d.callback = none
  verbatim : Verbatim d.staticHtml
  apart : StandsApart front d.staticHtml back
  /-- The interruption of the lexer at the token makes no difference. -/
  meets : TagLexer.Meet (items (pieces back) behind)
    (lexerBehind front (before ++ d :: behind) d.bytes).interrupt
    (lexerBehind front (before ++ d :: behind) d.bytes)

section

variable {front back : String} {before behind : List (Declaration ω δ)} {d : Declaration ω δ}

/-- The tokens on either side of a named one have the names of the declarations on the same side. -/
theorem names_of_split {names names' : List String}
    (hnodup : ((before ++ d :: behind).map Declaration.name).Nodup)
    (h : names ++ d.name :: names' = (before ++ d :: behind).map Declaration.name) :
    before.map Declaration.name = names ∧ behind.map Declaration.name = names' := by
  rw [List.map_append, List.map_cons] at h hnodup
  have hnotMem := List.nodup_append.mp hnodup
  obtain ⟨hbefore, -, hbehind⟩ := (List.append_cons_inj_of_notMem
    (fun hmem => hnotMem.2.2 _ hmem _ List.mem_cons_self rfl)
    (List.nodup_cons.mp hnotMem.2.1).1).mp h.symm
  exact ⟨hbefore, hbehind⟩

open Assembly

/-- Behind the token, and behind the text in its place, the assemblies are twins. -/
theorem Folds.twin (h : Folds front back before d behind) {source : String} {a b : Assembly ω δ}
    {t : Token} {offset : Nat} (ht : t.kind = .plain d.name)
    (ha : (pieces front).foldlM addPiece (atStart source (before ++ d :: behind)) = .ok a)
    (hb : a.addPiece (.token t) = .ok b)
    (hbefore : before.map Declaration.name = tokenNames (Token.ofSource front))
    (hbehind : behind.map Declaration.name =
      tokenNames ((piecesFrom offset back.toList).filterMap Piece.token?)) (source' : String) :
    ∃ b', (pieces front ++ d.staticHtml.toList.map Piece.text).foldlM addPiece
        (atStart source' (before ++ behind)) = .ok b' ∧
      Twin TagLexer.Meet [] [] (piecesFrom offset back.toList) b b' := by
  -- up to the token the same bytes are read, so the lexers are equal
  have hstart : Twin (fun _ l l' => l = l') (d :: behind) behind (pieces front)
      (atStart source (before ++ d :: behind)) (atStart source' (before ++ behind)) :=
    .intro before _ [] {} rfl rfl hbefore (List.nil_subset _) rfl
  obtain ⟨a', ha', htwin⟩ := hstart.foldlM lasting_eq (alike_piecesFrom 0 0 front.toList) ha
  obtain ⟨left, counts, seen, lexer, rfl, hd, hleft, hseen, rfl⟩ := htwin
  obtain rfl : left = [] := List.map_eq_nil_iff.mp hleft
  have hnamed : a.addNamed d.name false t.start = .ok b := by
    simpa [addPiece, addToken, ht] using hb
  obtain ⟨d', rest, r, hds, -, -, hr, hp⟩ := addNamed_eq_ok hnamed
  obtain ⟨rfl, rfl⟩ := List.cons.inj (hd.symm.trans hds)
  -- the scan of the items has read what the assembly has
  have hlexer : lexerBehind front (before ++ d :: behind) d.bytes = r.lexer := by
    rw [lexerBehind, List.foldl_append]
    exact ((Recounted.initial _ _).of_foldlM ha).2.feed hr |>.recounts.lexer_eq
  have hmeets := h.meets
  rw [hlexer, pieces, items_of_alike (alike_piecesFrom 0 offset back.toList)] at hmeets
  have hbytes : encoded d.staticHtml.toList = d.staticHtml.toUTF8.data.toList :=
    (sourceBytes_eq d.staticHtml).symm
  have hadded := addBytes_of_feed (a := a.retold counts behind seen a.reader.lexer)
    (length_static_le_room hnamed hds) hr
  rw [← hbytes, ← foldlM_chars, hbytes, toByteArray_toList] at hadded
  have hfold := congrArg (· >>= (d.staticHtml.toList.map Piece.text).foldlM addPiece) ha'
  refine ⟨_, List.foldlM_append.trans (hfold.trans hadded), ?_⟩
  -- without a callback only the lexer is interrupted
  cases hp with
  | plain run hc | attributes run hc => cases h.callback.symm.trans hc
  | folded hc hend =>
    refine .intro behind counts seen r.lexer ?_ (List.append_nil _).symm hbehind ?_ hmeets
    · rw [List.append_nil]
      rfl
    · exact fun name hmem => List.mem_cons_of_mem _ (hseen hmem)

/-- The source with the static text compiles to the same template. -/
theorem compile?_of_folds (h : Folds front back before d behind) {a : Assembly ω δ}
    {t : Template ω δ}
    (hc : compile? (front ++ namedToken d.name ++ back) (before ++ d :: behind) = .ok (a, t)) :
    ∃ a', compile? (front ++ d.staticHtml ++ back) (before ++ behind) = .ok (a', t) ∧
      a'.content = a.content ∧ a'.maxNesting = a.maxNesting := by
  have hnodup := nodup_of_compile? hc
  obtain ⟨hfold, hfinish⟩ := compile?_eq_atStart hc
  obtain ⟨token, offset, htoken, hpieces⟩ := pieces_of_named h.name front back
  obtain ⟨offset', hpieces'⟩ := pieces_of_replaced h.apart h.verbatim
  have hnames := (accepted_of_compile? hc).names_eq
  rw [ofSource_of_split hpieces, tokenNames_append, tokenNames_cons, htoken] at hnames
  obtain ⟨hbefore, hbehind⟩ := names_of_split hnodup hnames
  rw [hpieces] at hfold
  obtain ⟨b, c, hb, hnamed, hrest⟩ := foldlM_split hfold
  obtain ⟨c', hc', htwin⟩ := h.twin htoken hb hnamed hbefore hbehind
    (front ++ d.staticHtml ++ back)
  obtain ⟨a', ha', hlast⟩ := htwin.foldlM lasting_meet (alike_piecesFrom offset offset' _) hrest
  obtain ⟨hfinish', hsame⟩ := hlast.finish hfinish
  refine ⟨a', compile?_of_pass ?_ ?_ hfinish', hsame⟩
  · refine hnodup.sublist (List.Sublist.map _ ?_)
    exact List.Sublist.append_left (List.sublist_cons_self d behind) before
  · rw [hpieces', List.foldlM_append, hc']
    exact ha'

/-- A token whose declaration has no callback may be replaced by the static text, if the lexers
meet again behind it. -/
theorem folding_is_textual (h : Folds front back before d behind) :
    (∀ c, Component.compile (front ++ namedToken d.name ++ back) (before ++ d :: behind) = .ok c →
      Component.compile (front ++ d.staticHtml ++ back) (before ++ behind) = .ok c) ∧
    ∀ w, Wrapper.compile (front ++ namedToken d.name ++ back) (before ++ d :: behind) = .ok w →
      Wrapper.compile (front ++ d.staticHtml ++ back) (before ++ behind) = .ok w := by
  constructor
  · intro c hc
    obtain ⟨a, t, ht, hcontent, rfl⟩ := Component.compile_eq_ok hc
    obtain ⟨a', ht', hsame, hnesting⟩ := compile?_of_folds h ht
    rw [Component.compile_of_ok ht' (hsame.trans hcontent), hnesting]
  · intro w hw
    obtain ⟨a, t, content, ht, hcontent, rfl⟩ := Wrapper.compile_eq_ok hw
    obtain ⟨a', ht', hsame, hnesting⟩ := compile?_of_folds h ht
    rw [Wrapper.compile_of_ok ht' (hsame.trans hcontent), hnesting]

end

/-- The declaration of a marker that adds attributes. -/
def classed : List (Declaration Unit Unit) := [.attributes "a" fun _ => pure ()]

/-- In `<p${x} ${a}></p>` a token ends a name that ends behind it anyway. -/
theorem folds_behind_name : Folds "<p" " $\x7ba\x7d></p>" [] (.fixed "x") classed where
  name := .cons (by decide) (by simp)
  callback := rfl
  verbatim := by decide +kernel
  apart := by decide +kernel
  meets := by decide +kernel

theorem folding_behind_name : Folds "<p" " $\x7ba\x7d></p>" [] (.fixed "x") classed ∧
    ∃ c, Component.compile "<p$\x7bx\x7d $\x7ba\x7d></p>" (.fixed "x" :: classed) = .ok c ∧
      Component.compile "<p $\x7ba\x7d></p>" classed = .ok c := by
  obtain ⟨c, hc⟩ : ∃ c,
      Component.compile "<p$\x7bx\x7d $\x7ba\x7d></p>" (.fixed "x" :: classed) = .ok c :=
    exists_eq_ok (by decide +kernel)
  exact ⟨folds_behind_name, c, hc, (folding_is_textual folds_behind_name).1 c hc⟩

/-- In `<p ${a} /${x}></p>` a token takes back a slash: the element ends at its end tag, and without
the token it ends at the slash. The literal bytes are the same. -/
theorem folding_is_not_textual :
    Verbatim (Declaration.fixed "x" : Declaration Unit Unit).staticHtml ∧
      StandsApart "<p $\x7ba\x7d /" "" "></p>" ∧
      ∃ c c' : Component Unit Unit,
        Component.compile "<p $\x7ba\x7d /$\x7bx\x7d></p>" (classed ++ [.fixed "x"]) = .ok c ∧
        Component.compile "<p $\x7ba\x7d /></p>" classed = .ok c' ∧
        c.template.html = c'.template.html ∧
        c.template.elements.map Element.closeEnd = #[10] ∧
        c'.template.elements.map Element.closeEnd = #[6] := by
  have htoken : (Component.compile "<p $\x7ba\x7d /$\x7bx\x7d></p>"
      (classed ++ [.fixed "x"])).toOption.any fun c => c.template.html = "<p  /></p>".toUTF8 &&
        c.template.elements.map Element.closeEnd = #[10] := by
    decide +kernel
  have htext : (Component.compile "<p $\x7ba\x7d /></p>" classed).toOption.any fun c =>
      c.template.html = "<p  /></p>".toUTF8 &&
        c.template.elements.map Element.closeEnd = #[6] := by
    decide +kernel
  obtain ⟨c, hc, hvalues⟩ := exists_ok_of_any htoken
  obtain ⟨c', hc', hvalues'⟩ := exists_ok_of_any htext
  simp only [Bool.and_eq_true, decide_eq_true_eq] at hvalues hvalues'
  exact ⟨by decide +kernel, by decide +kernel, c, c', hc, hc',
    hvalues.1.trans hvalues'.1.symm, hvalues.2, hvalues'.2⟩

end HtmlTemplate
