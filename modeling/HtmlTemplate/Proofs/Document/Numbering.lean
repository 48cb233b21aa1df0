import HtmlTemplate.Document

/-!
# The source of a page

A page is compiled from a source that is made for it: the markup that belongs to the page itself,
with a numbered token for each text of the author. No text of the author is in it, and the markup
has neither a `$` nor a brace. So the source is split in one way only, whatever the page says.

Results:
1. `markerName_inj`, `nameBrace?_markerName`: numbered names are names, and they differ.
2. `splits_sourceFrom`: the pieces of the source are the characters of the markup and the
   numbered tokens.
3. `verbatim_parts`: the markup of a page starts no token.
4. `kinds_ofSource`: the tokens are `m0`, `m1` and so on, one for each text.
-/

namespace HtmlTemplate

variable {ω δ : Type}

/-! ## 1. Numbered names -/

namespace Document

theorem toList_markerName (number : Nat) :
    (markerName number).toList = 'm' :: Nat.toDigits 10 number := by
  simp [markerName]

theorem markerName_inj {i j : Nat} (h : markerName i = markerName j) : i = j := by
  have hlist := congrArg String.toList h
  rw [toList_markerName, toList_markerName, List.cons.injEq] at hlist
  have hdigits := congrArg (Nat.ofDigitChars 10 · 0) hlist.2
  simpa [Nat.ofDigitChars_toDigits] using hdigits

/-- A numbered name is read up to its brace. -/
theorem nameBrace?_markerName (number : Nat) (rest : List Char) :
    Token.nameBrace? ('m' :: (Nat.toDigits 10 number ++ '}' :: rest)) =
      some ((markerName number).toList, rest) := by
  have hdigits : ∀ c ∈ Nat.toDigits 10 number, Token.isNamePart c = true := by
    intro c hc
    have hdigit := Nat.isDigit_of_mem_toDigits (by decide) (by decide) hc
    simp [Token.isNamePart, Char.isAlphanum, hdigit]
  have hbrace : Token.isNamePart '}' = false := by decide
  have hstart : Token.isNameStart 'm' = true := by decide
  simp [Token.nameBrace?, hstart, List.dropWhile_append_of_pos hdigits,
    List.takeWhile_append_of_pos hdigits, hbrace, toList_markerName]

end Document

/-! ## 2. Pieces -/

/-- The character starts no token. -/
def StartsNoToken (c : Char) : Prop := c ≠ '$' ∧ c ≠ '}'

instance (c : Char) : Decidable (StartsNoToken c) := inferInstanceAs (Decidable (_ ∧ _))

/-- No character of the text starts a token. -/
def Verbatim (html : String) : Prop := ∀ c ∈ html.toList, StartsNoToken c

instance (html : String) : Decidable (Verbatim html) :=
  List.decidableBAll StartsNoToken html.toList

theorem Verbatim.append {front back : String} (h : Verbatim front) (h' : Verbatim back) :
    Verbatim (front ++ back) := by
  simpa [Verbatim, or_imp, forall_and] using And.intro h h'

theorem Token.atHead?_of_startsNoToken {c : Char} (hc : StartsNoToken c) (rest : List Char) :
    Token.atHead? (c :: rest) = none := by
  obtain ⟨hdollar, hbrace⟩ := hc
  unfold Token.atHead?
  split
  all_goals first | rfl | (next heq => injection heq with hhead; contradiction)

/-- Text in which no token starts is split into its characters. -/
theorem piecesFrom_append {cs : List Char} (hcs : ∀ c ∈ cs, StartsNoToken c) (offset : Nat)
    (rest : List Char) : ∃ offset',
      piecesFrom offset (cs ++ rest) = cs.map Piece.text ++ piecesFrom offset' rest := by
  induction cs generalizing offset with
  | nil => exact ⟨offset, rfl⟩
  | cons c cs ih =>
    obtain ⟨hc, hcs⟩ := List.forall_mem_cons.mp hcs
    obtain ⟨offset', ih⟩ := ih hcs (offset + c.utf8Size)
    refine ⟨offset', ?_⟩
    rw [List.cons_append, piecesFrom]
    split
    · next heq =>
      rw [Token.atHead?_of_startsNoToken hc] at heq
      cases heq
    · rw [List.map_cons, List.cons_append, ← ih]

namespace DocumentPart

/-- No token starts in the part, if it is markup. -/
def StartsNone : DocumentPart ω δ → Prop
  | markup html => Verbatim html
  | fragment _ => True

/-- The fragment that the part is. -/
def fragment? : DocumentPart ω δ → Option (Fragment ω δ)
  | markup _ => none
  | fragment f => some f

end DocumentPart

namespace Document

open DocumentPart

/-- The pieces are those of the parts: the characters of the markup, and a token for each
fragment, numbered from `number` on. -/
inductive Splits : Nat → List (DocumentPart ω δ) → List Piece → Prop
  | nil {number : Nat} : Splits number [] []
  | markup {number : Nat} {html : String} {parts : List (DocumentPart ω δ)}
      {pieces : List Piece} : Splits number parts pieces →
      Splits number (.markup html :: parts) (html.toList.map Piece.text ++ pieces)
  | fragment {number : Nat} {f : Fragment ω δ} {t : Token} {parts : List (DocumentPart ω δ)}
      {pieces : List Piece} :
      t.kind = .plain (markerName number) → Splits (number + 1) parts pieces →
      Splits number (.fragment f :: parts) (.token t :: pieces)

theorem splits_sourceFrom {parts : List (DocumentPart ω δ)} (h : ∀ p ∈ parts, p.StartsNone)
    (number offset : Nat) :
    Splits number parts (piecesFrom offset (sourceFrom number parts).toList) := by
  induction parts generalizing number offset with
  | nil =>
    rw [sourceFrom, piecesFrom]
    exact .nil
  | cons p parts ih =>
    obtain ⟨hp, hparts⟩ := List.forall_mem_cons.mp h
    cases p with
    | markup html =>
      obtain ⟨offset', hpieces⟩ := piecesFrom_append hp offset (sourceFrom number parts).toList
      rw [sourceFrom, String.toList_append, hpieces]
      exact .markup (ih hparts number offset')
    | fragment f =>
      have hsource : (sourceFrom number (.fragment f :: parts)).toList =
          '$' :: '{' :: 'm' ::
            (Nat.toDigits 10 number ++ '}' :: (sourceFrom (number + 1) parts).toList) := by
        simp [sourceFrom, markerName]
      have hhead : Token.atHead? (sourceFrom number (.fragment f :: parts)).toList =
          some (.plain (markerName number), (markerName number).toList.length + 3,
            (sourceFrom (number + 1) parts).toList) := by
        rw [hsource]
        simp [Token.atHead?, nameBrace?_markerName]
      rw [piecesFrom]
      split
      · next heq =>
        rw [hhead] at heq
        cases heq
        exact .fragment rfl (ih hparts (number + 1) _)
      · next heq =>
        rw [hhead] at heq
        cases heq

/-- The tokens among the pieces are numbered, one for each fragment. -/
theorem Splits.kinds {number : Nat} {parts : List (DocumentPart ω δ)} {pieces : List Piece}
    (h : Splits number parts pieces) :
    (pieces.filterMap Piece.token?).map Token.kind =
      (List.range' number (parts.filterMap fragment?).length).map (TokenKind.plain <| markerName ·)
    := by
  induction h with
  | nil => rfl
  | @markup number html parts pieces _ ih =>
    have hnone : (html.toList.map Piece.text).filterMap Piece.token? = [] := by
      simp [List.filterMap_eq_nil_iff, Piece.token?]
    rw [List.filterMap_append, hnone, List.nil_append, ih]
    rfl
  | @fragment number f t parts pieces hk _ ih =>
    rw [List.filterMap_cons_some (by rfl), List.map_cons, ih, hk]
    rfl

/-! ## 3. The markup of a page -/

/-- No token starts in the markup among the parts. -/
def AllVerbatim (parts : List (DocumentPart ω δ)) : Prop := ∀ p ∈ parts, p.StartsNone

namespace AllVerbatim

variable {parts parts' : List (DocumentPart ω δ)}

theorem nil : AllVerbatim ([] : List (DocumentPart ω δ)) := fun _ h => absurd h List.not_mem_nil

theorem append (h : AllVerbatim parts) (h' : AllVerbatim parts') : AllVerbatim (parts ++ parts') :=
  List.forall_mem_append.mpr ⟨h, h'⟩

theorem flatMap {α : Type} {f : α → List (DocumentPart ω δ)} (h : ∀ a, AllVerbatim (f a))
    (as : List α) : AllVerbatim (as.flatMap f) := by
  intro p hp
  obtain ⟨a, -, hmem⟩ := List.mem_flatMap.mp hp
  exact h a p hmem

theorem markup {html : String} (h : Verbatim html) (hparts : AllVerbatim parts) :
    AllVerbatim (.markup html :: parts) :=
  List.forall_mem_cons.mpr ⟨h, hparts⟩

theorem fragment (f : Fragment ω δ) (hparts : AllVerbatim parts) :
    AllVerbatim (.fragment f :: parts) :=
  List.forall_mem_cons.mpr ⟨trivial, hparts⟩

end AllVerbatim

theorem verbatim_between {before after : String} (hbefore : Verbatim before)
    (hafter : Verbatim after) (f? : Option (Fragment ω δ)) :
    AllVerbatim (between before f? after) := by
  cases f? with
  | none => exact .nil
  | some f => exact .markup hbefore (.fragment f (.markup hafter .nil))

theorem verbatim_metadata {name : String} (hname : Verbatim name) (content? : Option String) :
    AllVerbatim (DocumentPart.metadata name content? : List (DocumentPart ω δ)) := by
  cases content? with
  | none => exact .nil
  | some content =>
    have hmeta : Verbatim "<meta name=\"" := by decide +kernel
    have hcontent : Verbatim "\" content=\"" := by decide +kernel
    exact .markup ((hmeta.append hname).append hcontent)
      (.fragment _ (.markup (by decide +kernel) .nil))

theorem verbatim_link (l : Link) : AllVerbatim (link l : List (DocumentPart ω δ)) :=
  .markup (by decide +kernel) <| .fragment _ <| .markup (by decide +kernel) <| .fragment _ <|
    .markup (by decide +kernel) .nil

theorem verbatim_script (s : Script) : AllVerbatim (script s : List (DocumentPart ω δ)) := by
  have hend : ∀ deferred isModule : Bool, Verbatim ("\"" ++ (if deferred then " defer" else "") ++
      (if isModule then " type=\"module\"" else "") ++ "></script>") := by
    decide +kernel
  exact .markup (by decide +kernel) (.fragment _ (.markup (hend _ _) .nil))

theorem verbatim_bodyAttribute (pair : String × String) :
    AllVerbatim (bodyAttribute pair : List (DocumentPart ω δ)) :=
  .markup (by decide +kernel) <| .fragment _ <| .markup (by decide +kernel) <| .fragment _ <|
    .markup (by decide +kernel) .nil

theorem verbatim_metadataParts (m : Metadata) :
    AllVerbatim (m.parts : List (DocumentPart ω δ)) := by
  unfold Metadata.parts
  repeat' apply AllVerbatim.append
  all_goals exact verbatim_metadata (by decide +kernel) _

theorem verbatim_head (h : Head ω δ) : AllVerbatim h.parts :=
  ((((verbatim_between (by decide +kernel) (by decide +kernel) _).append
    (verbatim_metadataParts _)).append (.flatMap verbatim_link _)).append
    (verbatim_between (by decide +kernel) (by decide +kernel) _)).append
    (.flatMap verbatim_script _)

/-- The markup of a page starts no token. -/
theorem verbatim_parts (d : Document ω δ) : AllVerbatim d.parts := by
  have hfront : AllVerbatim (ω := ω) (δ := δ) [markup "<!DOCTYPE html>\n<html lang=\"",
      text d.lang, markup "\"><head><meta charset=\"utf-8\">"] :=
    .markup (by decide +kernel) (.fragment _ (.markup (by decide +kernel) .nil))
  have hbody : AllVerbatim (d.body.map DocumentPart.fragment) := by
    intro p hp
    obtain ⟨f, -, rfl⟩ := List.mem_map.mp hp
    trivial
  exact (((((((hfront.append (verbatim_head d.head)).append
    (.markup (by decide +kernel) .nil)).append
    (.flatMap verbatim_bodyAttribute _)).append (.markup (by decide +kernel) .nil)).append
    (verbatim_between (by decide +kernel) (by decide +kernel) _)).append hbody).append
    (.markup (by decide +kernel) .nil))

/-- The pieces of the source of a page. -/
theorem splits_parts (d : Document ω δ) :
    Splits 0 d.parts (pieces (sourceFrom 0 d.parts)) :=
  splits_sourceFrom (verbatim_parts d) 0 0

/-- The tokens of the source are numbered, one for each text, whatever the texts are. -/
theorem kinds_ofSource (d : Document ω δ) :
    (Token.ofSource (sourceFrom 0 d.parts)).map Token.kind =
      (List.range (d.parts.filterMap fragment?).length).map (TokenKind.plain <| markerName ·) := by
  rw [List.range_eq_range']
  exact (splits_parts d).kinds

end Document

end HtmlTemplate
