import HtmlTemplate.Proofs.Document.Numbering
import HtmlTemplate.Proofs.Template.Leftmost

/-!
# Cutting sources

A source may be cut where no token reaches across: the two parts have the pieces that they have in
the source. In front of a `$` it may always be cut, for a token has a `$` at its beginning only.
So a named token can be taken out of a source and replaced by text, and nothing else changes, if
the text makes no token with what stands around it.

Results:
1. `piecesFrom_append_of_cut`: the pieces of a source that is cut.
2. `alike_piecesFrom`: the pieces behind a place are the same wherever the place is.
3. `pieces_of_named`, `pieces_of_replaced`: the pieces of a source with a named token, and those of
   the source with text in its place.
-/

namespace HtmlTemplate

/-! ## 1. Places where no token reaches across -/

theorem piecesFrom_nil (offset : Nat) : piecesFrom offset [] = [] := by
  rw [piecesFrom]
  rfl

theorem piecesFrom_of_some {cs rest : List Char} {kind : TokenKind} {size : Nat}
    (h : Token.atHead? cs = some (kind, size, rest)) (offset : Nat) :
    piecesFrom offset cs = .token { kind := kind, start := offset, stop := offset + size } ::
      piecesFrom (offset + size) rest := by
  rw [piecesFrom]
  split
  · next heq =>
    cases heq.symm.trans h
    rfl
  · next heq => cases heq.symm.trans h

theorem piecesFrom_of_none {c : Char} {rest : List Char} (h : Token.atHead? (c :: rest) = none)
    (offset : Nat) :
    piecesFrom offset (c :: rest) = .text c :: piecesFrom (offset + c.utf8Size) rest := by
  rw [piecesFrom]
  split
  · next heq => cases heq.symm.trans h
  · rfl

/-- No token of the text reaches across the place behind `front`. -/
def CutBehind (offset : Nat) (front back : List Char) : Prop :=
  ∀ t, .token t ∈ piecesFrom offset (front ++ back) →
    t.stop ≤ offset + (encoded front).length ∨ offset + (encoded front).length ≤ t.start

/-- Behind the first pieces the same holds. -/
theorem CutBehind.drop {offset offset' : Nat} {front front' back : List Char}
    {pieces : List Piece} (h : CutBehind offset front back)
    (hpieces : piecesFrom offset (front ++ back) = pieces ++ piecesFrom offset' (front' ++ back))
    (hoffset : offset + (encoded front).length = offset' + (encoded front').length) :
    CutBehind offset' front' back := by
  intro t ht
  rw [← hoffset]
  exact h t (hpieces ▸ List.mem_append_right _ ht)

/-- What begins with a token begins with it if more follows. -/
theorem Token.atHead?_append {front rest : List Char} {kind : TokenKind} {size : Nat}
    (h : Token.atHead? front = some (kind, size, rest)) (back : List Char) :
    Token.atHead? (front ++ back) = some (kind, size, rest ++ back) := by
  obtain ⟨text, hspells, rfl, rfl⟩ := Token.atHead?_eq_some_iff.mp h
  exact Token.atHead?_eq_some_iff.mpr ⟨text, hspells, List.append_assoc _ _ _, rfl⟩

/-- A token that ends in front of a place is read without what stands behind the place. -/
theorem Token.exists_atHead?_of_append {front back rest : List Char} {kind : TokenKind}
    {size : Nat} (h : Token.atHead? (front ++ back) = some (kind, size, rest))
    (hle : size ≤ (encoded front).length) :
    ∃ rest', Token.atHead? front = some (kind, size, rest') := by
  obtain ⟨text, hspells, hcs, rfl⟩ := Token.atHead?_eq_some_iff.mp h
  have hprefix : text <+: front := by
    rcases List.prefix_or_prefix_of_prefix ⟨rest, hcs.symm⟩ (List.prefix_append front back)
      with hprefix | ⟨more, hmore⟩
    · exact hprefix
    · have hlength := hspells.length_encoded
      rw [← hmore, encoded_append, List.length_append] at hlength
      have hnil : more = [] := by
        by_contra hne
        have hpos := length_encoded_pos hne
        rw [← hmore] at hle
        omega
      rw [hnil, List.append_nil] at hmore
      exact hmore ▸ List.prefix_rfl
  obtain ⟨rest', rfl⟩ := hprefix
  exact ⟨rest', Token.atHead?_eq_some_iff.mpr ⟨text, hspells, rfl, rfl⟩⟩

/-- Both parts have the pieces that they have together. -/
theorem piecesFrom_append_of_cut {offset : Nat} {front back : List Char}
    (h : CutBehind offset front back) :
    piecesFrom offset (front ++ back) =
      piecesFrom offset front ++ piecesFrom (offset + (encoded front).length) back := by
  fun_induction piecesFrom offset front with
  | case1 offset front kind size rest hhead hlt ih =>
    have hpieces := piecesFrom_of_some (Token.atHead?_append hhead back) offset
    obtain ⟨text, hspells, rfl, rfl⟩ := Token.atHead?_eq_some_iff.mp hhead
    have hoffset : offset + (encoded (text ++ rest)).length =
        offset + text.length + (encoded rest).length := by
      rw [encoded_append, List.length_append, hspells.length_encoded, Nat.add_assoc]
    have hcut : CutBehind (offset + text.length) rest back :=
      h.drop (hpieces.trans (List.singleton_append).symm) hoffset
    rw [hpieces, ih hcut, hoffset, List.cons_append]
  | case2 offset hhead => rfl
  | case3 offset c rest hhead ih =>
    have hnone : Token.atHead? (c :: rest ++ back) = none := by
      cases hread : Token.atHead? (c :: rest ++ back) with
      | none => rfl
      | some found =>
        obtain ⟨kind, size, rest'⟩ := found
        have hpos := length_encoded_pos (List.cons_ne_nil c rest)
        have hmem := List.mem_cons_self (l := piecesFrom (offset + size) rest')
          (a := Piece.token ⟨kind, offset, offset + size⟩)
        rw [← piecesFrom_of_some hread offset] at hmem
        rcases h _ hmem with hstop | hstart
        · obtain ⟨rest', hfront⟩ := Token.exists_atHead?_of_append hread
            (Nat.le_of_add_le_add_left hstop)
          cases hfront.symm.trans hhead
        · exact absurd hstart (Nat.not_le_of_lt (Nat.lt_add_of_pos_right hpos))
    have hpieces : piecesFrom offset (c :: (rest ++ back)) =
        .text c :: piecesFrom (offset + c.utf8Size) (rest ++ back) :=
      piecesFrom_of_none hnone offset
    have hoffset : offset + (encoded (c :: rest)).length =
        offset + c.utf8Size + (encoded rest).length := by
      rw [encoded_cons, List.length_append, String.length_utf8EncodeChar, Nat.add_assoc]
    have hcut : CutBehind (offset + c.utf8Size) rest back :=
      h.drop (hpieces.trans (List.singleton_append).symm) hoffset
    rw [List.cons_append, hpieces, ih hcut, hoffset, List.cons_append]

/-- A token has a `$` at its beginning only. -/
theorem TokenKind.Spells.dollar_notMem_tail {kind : TokenKind} {text : List Char}
    (h : kind.Spells text) : '$' ∉ text.tail := by
  have hname : ∀ {name : String}, Token.IsName name.toList → '$' ∉ name.toList ++ ['}'] := by
    intro name h hmem
    rcases List.mem_append.mp hmem with hmem | hmem
    · exact absurd (h.forall_isNamePart _ hmem) (by decide)
    · exact absurd (List.mem_singleton.mp hmem) (by decide)
  cases h with
  | content | contentInBraces | wrapperEnd => simp
  | wrapperStart h | plain h => simpa using hname h

/-- In front of a `$` a source may always be cut. -/
theorem cutBehind_of_dollar (offset : Nat) (front back : List Char) :
    CutBehind offset front ('$' :: back) := by
  intro t ht
  obtain ⟨before, text, after, hcs, hspells, hstart, hstop⟩ := spells_of_mem_piecesFrom ht
  rw [List.append_assoc] at hcs
  rcases List.append_eq_append_iff.mp hcs with ⟨inside, rfl, hback⟩ | ⟨inside, rfl, hback⟩
  · right
    rw [hstart, encoded_append, List.length_append]
    omega
  · simp only [encoded_append, List.length_append] at hstop ⊢
    rcases List.append_eq_append_iff.mp hback with ⟨inside', rfl, -⟩ | ⟨inside', rfl, hdollar⟩
    · left
      rw [hstop, hstart, encoded_append, List.length_append]
      omega
    · rw [encoded_append, List.length_append] at hstop
      cases inside' with
      | nil =>
        left
        simp only [encoded_nil, List.length_nil] at hstop
        omega
      | cons first inside' =>
        -- the token would hold the `$`
        obtain ⟨rfl, -⟩ := List.cons.inj hdollar
        cases inside with
        | nil =>
          right
          rw [hstart]
          simp
        | cons c inside =>
          exact absurd (List.mem_append_right inside List.mem_cons_self)
            hspells.dollar_notMem_tail

/-! ## 2. Offsets -/

/-- The same piece, maybe in another place. -/
inductive Piece.Alike : Piece → Piece → Prop
  | text (c : Char) : Piece.Alike (.text c) (.text c)
  | token {t t' : Token} : t.kind = t'.kind → Piece.Alike (.token t) (.token t')

/-- The pieces of a text are the same wherever it stands. -/
theorem alike_piecesFrom (offset offset' : Nat) (cs : List Char) :
    List.Forall₂ Piece.Alike (piecesFrom offset cs) (piecesFrom offset' cs) := by
  fun_induction piecesFrom offset cs generalizing offset' with
  | case1 offset cs kind size rest hhead hlt ih =>
    rw [piecesFrom_of_some hhead offset']
    exact .cons (.token rfl) (ih _)
  | case2 offset hhead =>
    rw [piecesFrom_nil]
    exact .nil
  | case3 offset c rest hhead ih =>
    rw [piecesFrom_of_none hhead offset']
    exact .cons (.text c) (ih _)

/-! ## 3. Sources with a named token -/

/-- The token `${name}`. -/
def namedToken (name : String) : String := "$\x7b" ++ name ++ "\x7d"

/-- The source is cut at a named token. -/
theorem pieces_of_named {name : String} (hname : Token.IsName name.toList) (front back : String) :
    ∃ (t : Token) (offset : Nat), t.kind = .plain name ∧
      pieces (front ++ namedToken name ++ back) =
        pieces front ++ .token t :: piecesFrom offset back.toList := by
  have hsource : (front ++ namedToken name ++ back).toList =
      front.toList ++ '$' :: ('{' :: (name.toList ++ ['}']) ++ back.toList) := by
    simp [namedToken]
  have hread : Token.atHead? ('$' :: ('{' :: (name.toList ++ ['}']) ++ back.toList)) =
      some (.plain name, ('$' :: '{' :: (name.toList ++ ['}'])).length, back.toList) :=
    Token.atHead?_eq_some_iff.mpr ⟨_, .plain hname, rfl, rfl⟩
  have hpieces := piecesFrom_append_of_cut (cutBehind_of_dollar 0 front.toList
    ('{' :: (name.toList ++ ['}']) ++ back.toList))
  rw [piecesFrom_of_some hread] at hpieces
  exact ⟨_, _, rfl, (congrArg (piecesFrom 0) hsource).trans hpieces⟩

/-- No token of the source reaches into the middle part or across it. -/
def StandsApart (front middle back : String) : Prop :=
  ∀ t ∈ Token.ofSource (front ++ middle ++ back),
    t.stop ≤ front.utf8ByteSize ∨ (front ++ middle).utf8ByteSize ≤ t.start

instance (front middle back : String) : Decidable (StandsApart front middle back) :=
  inferInstanceAs (Decidable (∀ t ∈ _, _))

/-- A token stands within the text. -/
theorem start_lt_of_mem_piecesFrom {offset : Nat} {cs : List Char} {t : Token}
    (h : .token t ∈ piecesFrom offset cs) : t.start < offset + (encoded cs).length := by
  obtain ⟨front, text, back, rfl, hspells, hstart, -⟩ := spells_of_mem_piecesFrom h
  have hpos := length_encoded_pos hspells.ne_nil
  simp only [encoded_append, List.length_append, hstart]
  omega

/-- The source is cut on either side of a text that has no part in a token. -/
theorem pieces_of_replaced {front middle back : String} (h : StandsApart front middle back)
    (hmiddle : Verbatim middle) : ∃ offset, pieces (front ++ middle ++ back) =
      pieces front ++ middle.toList.map .text ++ piecesFrom offset back.toList := by
  have hsize : ∀ text : String, text.utf8ByteSize = (encoded text.toList).length := fun text => by
    rw [← utf8ByteSize_ofList, String.ofList_toList]
  have hsource : (front ++ middle ++ back).toList =
      (front.toList ++ middle.toList) ++ back.toList := by
    simp
  have hapart : ∀ t, .token t ∈ piecesFrom 0 ((front.toList ++ middle.toList) ++ back.toList) →
      t.stop ≤ (encoded front.toList).length ∨
        (encoded (front.toList ++ middle.toList)).length ≤ t.start := by
    intro t ht
    have hcut := h t (mem_ofSource.mpr (hsource ▸ ht))
    rwa [hsize, hsize, String.toList_append] at hcut
  have hbehind : CutBehind 0 (front.toList ++ middle.toList) back.toList := by
    intro t ht
    rw [Nat.zero_add]
    rcases hapart t ht with hstop | hstart
    · left
      rw [encoded_append, List.length_append]
      exact Nat.le_add_right_of_le hstop
    · exact .inr hstart
  have hboth := piecesFrom_append_of_cut hbehind
  have hbefore : CutBehind 0 front.toList middle.toList := by
    intro t ht
    have hlt := start_lt_of_mem_piecesFrom ht
    rw [Nat.zero_add] at hlt ⊢
    rcases hapart t (hboth ▸ List.mem_append_left _ ht) with hstop | hstart
    · exact .inl hstop
    · exact absurd hlt (Nat.not_lt_of_le hstart)
  obtain ⟨offset, hverbatim⟩ := piecesFrom_append hmiddle (0 + (encoded front.toList).length) []
  rw [List.append_nil, piecesFrom_nil, List.append_nil] at hverbatim
  rw [piecesFrom_append_of_cut hbefore, hverbatim] at hboth
  exact ⟨_, (congrArg (piecesFrom 0) hsource).trans hboth⟩

end HtmlTemplate
