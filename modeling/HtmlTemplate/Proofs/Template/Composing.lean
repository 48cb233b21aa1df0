import HtmlTemplate.Proofs.Template.Cutting
import HtmlTemplate.Proofs.Template.Outline

/-!
# Sources put together

A source that is put together from text and tokens is read part by part. A token is read as such
whatever follows it, and text without a `$` or a closing brace is no part of a token. So the
outline of a source is built from its end to its beginning, with one rule for each kind of part,
and there is no need to run the lexer.

Results:
1. `verbatim_of_bytes`: whether a text can hold a token is seen in its bytes.
2. `Outline.Reads`: the text is read as the outline, with one rule for each kind of part.
   `Reads.ofSource?`: so is the source.
-/

namespace HtmlTemplate

variable {ω δ : Type}

/-! ## 1. Text and names -/

/-- An ASCII text with neither a `$` nor a closing brace among its bytes. -/
theorem verbatim_of_bytes {html : String}
    (h : ∀ byte ∈ sourceBytes html, byte < 128 ∧ byte ≠ '$'.toUInt8 ∧ byte ≠ '}'.toUInt8) :
    Verbatim html := by
  intro c hc
  rw [toList_of_ascii fun byte hbyte => (h byte hbyte).1] at hc
  obtain ⟨byte, hbyte, rfl⟩ := List.mem_map.mp hc
  obtain ⟨-, hdollar, hbrace⟩ := h byte hbyte
  have hback := toUInt8_ofUInt8 byte
  exact ⟨fun heq => hdollar (hback ▸ congrArg Char.toUInt8 heq),
    fun heq => hbrace (hback ▸ congrArg Char.toUInt8 heq)⟩

instance (name : List Char) : Decidable (Token.IsName name) :=
  decidable_of_iff (Token.nameBrace? (name ++ ['}']) = some (name, [])) (by
    simp [Token.nameBrace?_eq_some_iff])

/-- A token is read whatever follows it. -/
theorem piecesFrom_of_spells {kind : TokenKind} {text : List Char} (h : kind.Spells text)
    (offset : Nat) (back : List Char) :
    ∃ t offset', t.kind = kind ∧
      piecesFrom offset (text ++ back) = .token t :: piecesFrom offset' back :=
  ⟨_, _, rfl, piecesFrom_of_some (Token.atHead?_eq_some_iff.mpr ⟨text, h, rfl, rfl⟩) offset⟩

/-! ## 2. Reading part by part -/

namespace Outline

/-- Wherever the text stands in a source, it is read as the outline, with the outlines behind
those wrapper ends that have no start in it. -/
def Reads (text : String) (ds : List (Declaration ω δ)) (o : Outline ω δ)
    (outer : List (Outline ω δ)) : Prop :=
  ∀ offset, parse (piecesFrom offset text.toList) ds = some (o, outer)

namespace Reads

variable {back : String} {d : Declaration ω δ} {ds : List (Declaration ω δ)}
  {o inside rest : Outline ω δ} {outer : List (Outline ω δ)}

theorem ofSource? {source text : String} (h : Reads text ds o []) (hsource : source = text) :
    Outline.ofSource? source ds = some o := by
  rw [hsource, Outline.ofSource?, pieces, h 0]

theorem nil : Reads (ω := ω) (δ := δ) "" [] .stop [] := by
  intro offset
  rw [String.toList_empty, piecesFrom_nil]
  rfl

theorem text (html : String)
    (hbytes : ∀ byte ∈ sourceBytes html, byte < 128 ∧ byte ≠ '$'.toUInt8 ∧ byte ≠ '}'.toUInt8)
    (h : Reads back ds o outer) : Reads (html ++ back) ds (chars html o) outer := by
  intro offset
  obtain ⟨offset', hpieces⟩ := piecesFrom_append (verbatim_of_bytes hbytes) offset back.toList
  rw [String.toList_append, hpieces]
  exact parse_chars (h offset') html

theorem content (h : Reads back ds o outer) :
    Reads ("$\x7b\x7d" ++ back) ds (.content o) outer := by
  intro offset
  obtain ⟨t, offset', ht, hpieces⟩ := piecesFrom_of_spells .content offset back.toList
  rw [String.toList_append]
  refine (congrArg (parse · ds) hpieces).trans ?_
  simp [parse, ht, h offset']

theorem wrapperEnd (h : Reads back ds o outer) :
    Reads ("\x7d\x7d" ++ back) ds .stop (o :: outer) := by
  intro offset
  obtain ⟨t, offset', ht, hpieces⟩ := piecesFrom_of_spells .wrapperEnd offset back.toList
  rw [String.toList_append]
  refine (congrArg (parse · ds) hpieces).trans ?_
  simp [parse, ht, h offset']

theorem plain (hname : Token.IsName d.name.toList) (hnode : plainNode? d rest = some o)
    (h : Reads back ds rest outer) :
    Reads ("$\x7b" ++ d.name ++ "\x7d" ++ back) (d :: ds) (.text d.staticHtml o) outer := by
  intro offset
  obtain ⟨t, offset', ht, hpieces⟩ := piecesFrom_of_spells (.plain hname) offset back.toList
  have htext : ("$\x7b" ++ d.name ++ "\x7d" ++ back).toList =
      '$' :: '{' :: (d.name.toList ++ ['}']) ++ back.toList := by
    simp
  rw [htext, hpieces]
  simp [parse, ht, h offset', hnode]

theorem wrapper (hname : Token.IsName d.name.toList)
    (hnode : wrapperNode? d inside rest = some o) (h : Reads back ds inside (rest :: outer)) :
    Reads ("$\x7b\x7b" ++ d.name ++ "\x7d" ++ back) (d :: ds) (.text d.staticHtml o) outer := by
  intro offset
  obtain ⟨t, offset', ht, hpieces⟩ := piecesFrom_of_spells (.wrapperStart hname) offset back.toList
  have htext : ("$\x7b\x7b" ++ d.name ++ "\x7d" ++ back).toList =
      '$' :: '{' :: '{' :: (d.name.toList ++ ['}']) ++ back.toList := by
    simp
  rw [htext, hpieces]
  simp [parse, ht, h offset', hnode]

end Reads

end Outline

end HtmlTemplate
