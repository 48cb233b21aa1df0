import Mathlib.Data.List.Pairwise
import HtmlTemplate.Proofs.Template.Sources
import HtmlTemplate.Proofs.Text.Boundaries

/-!
# The leftmost tokens

The spellings of tokens overlap: a wrapper end stands in `${{}}` and may stand behind `${{a}`,
and three braces hold two wrapper ends. A source is read from left to right, by characters, and
what has been taken for a token is not looked at again. This module says which tokens that
gives, without following the reading: `Leftmost` goes by the bytes of the source alone.

Results:
1. `TokenKind.Spells`: how tokens are spelled. `atHead?_eq_some_iff`: a token is read at the head
   of a text exactly if the text begins with its spelling.
2. `spells_of_mem_piecesFrom`, `pairwise_piecesFrom`: the tokens that are read are spelled in the
   text and stand one behind the other.
   `mem_or_inside_piecesFrom`: no other spelling is passed over.
3. `leftmost_ofSource`: the tokens of a source are the leftmost ones. `ofSource_eq_iff_leftmost`: no
   other list is.
-/

namespace HtmlTemplate

/-! ## 1. Spellings -/

namespace Token

def IsLetter (c : Char) : Prop := 'a' ≤ c ∧ c ≤ 'z' ∨ 'A' ≤ c ∧ c ≤ 'Z'

instance (c : Char) : Decidable (IsLetter c) := inferInstanceAs (Decidable (_ ∨ _))

/-- The names: `[a-zA-Z][-_a-zA-Z0-9]*`. -/
inductive IsName : List Char → Prop
  | cons {c : Char} {cs : List Char} : IsLetter c →
      (∀ c ∈ cs, IsLetter c ∨ '0' ≤ c ∧ c ≤ '9' ∨ c = '-' ∨ c = '_') → IsName (c :: cs)

theorem isNameStart_iff {c : Char} : isNameStart c = true ↔ IsLetter c := by
  have hclass : isNameStart c =
      (decide ('A' ≤ c ∧ c ≤ 'Z') || decide ('a' ≤ c) && decide (c ≤ 'z')) := rfl
  simp only [hclass, IsLetter, Bool.or_eq_true, Bool.and_eq_true, decide_eq_true_eq]
  exact Or.comm

theorem isNamePart_iff {c : Char} :
    isNamePart c = true ↔ IsLetter c ∨ '0' ≤ c ∧ c ≤ '9' ∨ c = '-' ∨ c = '_' := by
  have hclass : isNamePart c = (isNameStart c || (decide ('0' ≤ c) && decide (c ≤ '9')) ||
      decide (c = '-') || decide (c = '_')) := rfl
  simp only [hclass, Bool.or_eq_true, Bool.and_eq_true, decide_eq_true_eq, isNameStart_iff,
    or_assoc]

/-- A name is read up to its brace, and nothing else is. -/
theorem nameBrace?_eq_some_iff {cs name rest : List Char} :
    nameBrace? cs = some (name, rest) ↔ IsName name ∧ cs = name ++ '}' :: rest := by
  constructor
  · intro h
    obtain ⟨hcs, hparts⟩ := eq_append_of_nameBrace? h
    refine ⟨?_, hcs⟩
    cases cs with
    | nil => cases h
    | cons c cs =>
      simp only [nameBrace?] at h
      split at h
      · next hstart =>
        split at h
        · cases h
          obtain ⟨-, hparts⟩ := List.forall_mem_cons.mp hparts
          exact .cons (isNameStart_iff.mp hstart) fun c hc => isNamePart_iff.mp (hparts c hc)
        · cases h
      · cases h
  · rintro ⟨@⟨c, cs, hc, hcs⟩, rfl⟩
    have hparts : ∀ c ∈ cs, isNamePart c = true := fun c h => isNamePart_iff.mpr (hcs c h)
    have hbrace : isNamePart '}' = false := by decide
    simp [nameBrace?, isNameStart_iff.mpr hc, List.dropWhile_append_of_pos hparts,
      List.takeWhile_append_of_pos hparts, hbrace]

end Token

/-- The texts that tokens of a kind have. -/
inductive TokenKind.Spells : TokenKind → List Char → Prop
  | content : Spells .content ['$', '{', '}']
  | contentInBraces : Spells .content ['$', '{', '{', '}', '}']
  | wrapperEnd : Spells .wrapperEnd ['}', '}']
  | wrapperStart {name : String} : Token.IsName name.toList →
      Spells (.wrapperStart name) ('$' :: '{' :: '{' :: (name.toList ++ ['}']))
  | plain {name : String} : Token.IsName name.toList →
      Spells (.plain name) ('$' :: '{' :: (name.toList ++ ['}']))

namespace Token

theorem IsName.forall_isNamePart {name : List Char} (h : IsName name) :
    ∀ c ∈ name, isNamePart c = true := by
  obtain ⟨hc, hcs⟩ := h
  exact List.forall_mem_cons.mpr ⟨isNamePart_of_isNameStart (isNameStart_iff.mpr hc),
    fun c h => isNamePart_iff.mpr (hcs c h)⟩

/-- A name does not begin with a brace. -/
theorem IsName.exists_cons {name : List Char} (h : IsName name) :
    ∃ c cs, name = c :: cs ∧ c ≠ '{' ∧ c ≠ '}' := by
  obtain ⟨hc, -⟩ := h
  refine ⟨_, _, rfl, ?_, ?_⟩ <;> rintro rfl <;> revert hc <;> decide

/-- A token is read exactly if it is spelled at the head of the text. -/
theorem atHead?_eq_some_iff {cs rest : List Char} {kind : TokenKind} {size : Nat} :
    atHead? cs = some (kind, size, rest) ↔
      ∃ text, kind.Spells text ∧ cs = text ++ rest ∧ size = text.length := by
  constructor
  · intro h
    unfold atHead? at h
    split at h
    · cases h
      exact ⟨_, .contentInBraces, rfl, rfl⟩
    · cases h
      exact ⟨_, .content, rfl, rfl⟩
    · cases h
      exact ⟨_, .wrapperEnd, rfl, rfl⟩
    · obtain ⟨⟨name, tail⟩, hname, heq⟩ := Option.map_eq_some_iff.mp h
      cases heq
      obtain ⟨hisName, rfl⟩ := nameBrace?_eq_some_iff.mp hname
      rw [← String.toList_ofList (l := name)] at hisName
      exact ⟨_, .wrapperStart hisName, by simp, by simp⟩
    · obtain ⟨⟨name, tail⟩, hname, heq⟩ := Option.map_eq_some_iff.mp h
      cases heq
      obtain ⟨hisName, rfl⟩ := nameBrace?_eq_some_iff.mp hname
      rw [← String.toList_ofList (l := name)] at hisName
      exact ⟨_, .plain hisName, by simp, by simp⟩
    · cases h
  · rintro ⟨text, hspells, rfl, rfl⟩
    cases hspells with
    | content | contentInBraces | wrapperEnd => rfl
    | @wrapperStart name hname | @plain name hname =>
      have hread : nameBrace? (name.toList ++ '}' :: rest) = some (name.toList, rest) :=
        nameBrace?_eq_some_iff.mpr ⟨hname, rfl⟩
      obtain ⟨c, cs, hcs, hopen, hclose⟩ := hname.exists_cons
      rw [hcs, List.cons_append] at hread
      have hofList : String.ofList (c :: cs) = name := hcs ▸ String.ofList_toList
      simp [atHead?, hcs, hread, hopen, hclose, hofList]

end Token

namespace TokenKind.Spells

variable {kind : TokenKind} {text : List Char}

/-- A token is made of characters of one byte each. -/
theorem utf8Size_eq (h : kind.Spells text) : ∀ c ∈ text, c.utf8Size = 1 := by
  have hname : ∀ {name : String}, Token.IsName name.toList →
      ∀ c ∈ name.toList ++ ['}'], c.utf8Size = 1 := by
    intro name h c hc
    rcases List.mem_append.mp hc with hc | hc
    · exact Token.utf8Size_of_isNamePart (h.forall_isNamePart c hc)
    · rw [List.mem_singleton.mp hc]
      rfl
  have hdollar : '$'.utf8Size = 1 := rfl
  have hopen : '{'.utf8Size = 1 := rfl
  have hclose : '}'.utf8Size = 1 := rfl
  cases h with
  | content | contentInBraces | wrapperEnd => simp [hdollar, hopen, hclose]
  | wrapperStart h | plain h => simpa [hdollar, hopen] using hname h

theorem ne_nil (h : kind.Spells text) : text ≠ [] := by
  cases h <;> exact List.cons_ne_nil _ _

/-- So it takes as many bytes. -/
theorem length_encoded (h : kind.Spells text) : (encoded text).length = text.length := by
  have hsize := h.utf8Size_eq
  clear h
  induction text with
  | nil => rfl
  | cons c text ih =>
    obtain ⟨hc, htext⟩ := List.forall_mem_cons.mp hsize
    rw [encoded_cons, List.length_append, String.length_utf8EncodeChar, hc, ih htext,
      List.length_cons, Nat.add_comm]

/-- Its bytes are ASCII. -/
theorem ascii (h : kind.Spells text) : ∀ byte ∈ encoded text, byte < 128 := by
  intro byte hbyte
  obtain ⟨c, hc, hbyte⟩ := List.mem_flatMap.mp hbyte
  have hsize := h.utf8Size_eq c hc
  rw [String.utf8EncodeChar_eq_singleton hsize, List.mem_singleton] at hbyte
  have hval : c.val.toNat ≤ 127 := Char.utf8Size_eq_one_iff.mp hsize
  rw [hbyte, UInt8.lt_iff_toNat_lt, UInt32.toNat_toUInt8]
  show c.val.toNat % 256 < 128
  omega

end TokenKind.Spells

/-! ## 2. Reading from left to right -/

theorem length_encoded_pos {cs : List Char} (h : cs ≠ []) : 0 < (encoded cs).length := by
  obtain ⟨c, cs, rfl⟩ := List.exists_cons_of_ne_nil h
  rw [encoded_cons, List.length_append, String.length_utf8EncodeChar]
  exact Nat.lt_add_right _ c.utf8Size_pos

/-- A token that is read is spelled where it says. -/
theorem spells_of_mem_piecesFrom {offset : Nat} {cs : List Char} {t : Token}
    (h : Piece.token t ∈ piecesFrom offset cs) :
    ∃ front text back, cs = front ++ text ++ back ∧ t.kind.Spells text ∧
      t.start = offset + (encoded front).length ∧ t.stop = t.start + (encoded text).length := by
  fun_induction piecesFrom offset cs with
  | case1 offset cs kind size rest hhead hlt ih =>
    obtain ⟨text, hspells, rfl, rfl⟩ := Token.atHead?_eq_some_iff.mp hhead
    rcases List.mem_cons.mp h with heq | h
    · cases heq
      exact ⟨[], text, rest, rfl, hspells, rfl, congrArg (offset + ·) hspells.length_encoded.symm⟩
    · obtain ⟨front, text', back, rfl, hspells', hstart, hstop⟩ := ih h
      refine ⟨text ++ front, text', back, by simp, hspells', ?_, hstop⟩
      rw [hstart, encoded_append, List.length_append, hspells.length_encoded, Nat.add_assoc]
  | case2 offset hhead => cases h
  | case3 offset c rest hhead ih =>
    rcases List.mem_cons.mp h with heq | h
    · cases heq
    · obtain ⟨front, text, back, rfl, hspells, hstart, hstop⟩ := ih h
      refine ⟨c :: front, text, back, rfl, hspells, ?_, hstop⟩
      rw [hstart, encoded_cons, List.length_append, String.length_utf8EncodeChar, Nat.add_assoc]

/-- Each token that is read ends before the next one starts. -/
theorem pairwise_piecesFrom (offset : Nat) (cs : List Char) :
    ((piecesFrom offset cs).filterMap Piece.token?).Pairwise fun s t => s.stop ≤ t.start := by
  fun_induction piecesFrom offset cs with
  | case1 offset cs kind size rest hhead hlt ih =>
    refine List.pairwise_cons.mpr ⟨fun t ht => ?_, ih⟩
    obtain ⟨p, hp, hpt⟩ := List.mem_filterMap.mp ht
    cases p with
    | text c => cases hpt
    | token t' =>
      cases hpt
      obtain ⟨front, text, back, -, -, hstart, -⟩ := spells_of_mem_piecesFrom hp
      exact hstart ▸ Nat.le_add_right _ _
  | case2 offset hhead => exact .nil
  | case3 offset c rest hhead ih => exact ih

/-- What is spelled in the text is read, or begins inside of a token that is read before. -/
theorem mem_or_inside_piecesFrom {offset : Nat} {cs front text back : List Char} {t : Token}
    (hcs : cs = front ++ text ++ back) (hspells : t.kind.Spells text)
    (hstart : t.start = offset + (encoded front).length)
    (hstop : t.stop = t.start + (encoded text).length) :
    .token t ∈ piecesFrom offset cs ∨
      ∃ s : Token, .token s ∈ piecesFrom offset cs ∧ s.start < t.start ∧ t.start < s.stop := by
  fun_induction piecesFrom offset cs generalizing front with
  | case1 offset cs kind size rest hhead hlt ih =>
    cases front with
    | nil =>
      -- only one token can be read at a place
      have hread : Token.atHead? cs = some (t.kind, text.length, back) :=
        Token.atHead?_eq_some_iff.mpr ⟨text, hspells, hcs, rfl⟩
      cases hhead.symm.trans hread
      obtain ⟨kind, start, stop⟩ := t
      obtain rfl : start = offset := hstart
      obtain rfl : stop = start + text.length := hspells.length_encoded ▸ hstop
      exact .inl List.mem_cons_self
    | cons c front =>
      obtain ⟨text', hspells', htext', rfl⟩ := Token.atHead?_eq_some_iff.mp hhead
      have hsize : (encoded text').length = text'.length := hspells'.length_encoded
      by_cases hle : text'.length ≤ (c :: front).length
      · -- the spelling stands behind the token, and the rest is read from there
        have hprefix : text' <+: c :: front := by
          refine List.prefix_of_prefix_length_le ⟨rest, htext'.symm⟩ ⟨text ++ back, ?_⟩ hle
          rw [hcs, List.append_assoc]
        obtain ⟨front', hfront⟩ := hprefix
        have hrest : rest = front' ++ text ++ back := by
          rw [hcs, ← hfront] at htext'
          simpa using htext'.symm
        have hstart' : t.start = offset + text'.length + (encoded front').length := by
          rw [hstart, ← hfront, encoded_append, List.length_append, hsize, Nat.add_assoc]
        rcases ih hrest hstart' with hmem | ⟨s, hmem, hinside⟩
        · exact .inl (List.mem_cons_of_mem _ hmem)
        · exact .inr ⟨s, List.mem_cons_of_mem _ hmem, hinside⟩
      · have hprefix : c :: front <+: text' := by
          refine List.prefix_of_prefix_length_le ⟨text ++ back, ?_⟩ ⟨rest, htext'.symm⟩ (by omega)
          rw [hcs, List.append_assoc]
        obtain ⟨inside, rfl⟩ := hprefix
        have hne : inside ≠ [] := by
          rintro rfl
          simp at hle
        refine .inr ⟨_, List.mem_cons_self, ?_, ?_⟩
        · have hpos := length_encoded_pos (List.cons_ne_nil c front)
          show offset < t.start
          omega
        · have hpos := length_encoded_pos hne
          rw [encoded_append, List.length_append] at hsize
          show t.start < offset + _
          omega
  | case2 offset hhead =>
    have hnil := (List.append_eq_nil_iff.mp (List.append_eq_nil_iff.mp hcs.symm).1).2
    exact absurd hnil hspells.ne_nil
  | case3 offset c rest hhead ih =>
    cases front with
    | nil =>
      have hread : Token.atHead? (c :: rest) = some (t.kind, text.length, back) :=
        Token.atHead?_eq_some_iff.mpr ⟨text, hspells, hcs, rfl⟩
      cases hhead.symm.trans hread
    | cons c' front =>
      cases hcs
      rcases ih rfl (by simp [hstart, Nat.add_assoc]) with hmem | ⟨s, hmem, hinside⟩
      · exact .inl (List.mem_cons_of_mem _ hmem)
      · exact .inr ⟨s, List.mem_cons_of_mem _ hmem, hinside⟩

/-! ## 3. The bytes of a source -/

/-- The bytes of the source between the offsets of the token spell it. -/
structure Token.SpelledIn (source : String) (t : Token) : Prop where
  stop_le : t.stop ≤ source.toUTF8.size
  spelled : ∃ text : String, t.kind.Spells text.toList ∧
    source.toUTF8.extract t.start t.stop = text.toUTF8

/-- The tokens are the leftmost ones that are spelled in the source and do not overlap. -/
structure Leftmost (source : String) (tokens : List Token) : Prop where
  spelled : ∀ t ∈ tokens, t.SpelledIn source
  start_lt_stop : ∀ t ∈ tokens, t.start < t.stop
  increasing : tokens.Pairwise fun s t => s.stop ≤ t.start
  onBoundaries : ∀ t ∈ tokens, OnBoundary source.toUTF8 t.start ∧ OnBoundary source.toUTF8 t.stop
  /-- What else is spelled in the source begins inside of a token that starts earlier. -/
  complete : ∀ t : Token, t.SpelledIn source →
    t ∈ tokens ∨ ∃ s ∈ tokens, s.start < t.start ∧ t.start < s.stop

theorem toUTF8_eq_encoded (text : String) : text.toUTF8 = (encoded text.toList).toByteArray := by
  rw [← sourceBytes_eq, sourceBytes, Assembly.toByteArray_toList]

/-- Both ends of a spelling are between characters, since all of its bytes are ASCII. -/
theorem onBoundaries_of_spells {source text : String} {kind : TokenKind} {start stop : Nat}
    (hspells : kind.Spells text.toList) (hle : stop ≤ source.toUTF8.size)
    (htext : source.toUTF8.extract start stop = text.toUTF8) :
    start < stop ∧ OnBoundary source.toUTF8 start ∧ OnBoundary source.toUTF8 stop := by
  have hsize := congrArg ByteArray.size htext
  have hpos := length_encoded_pos hspells.ne_nil
  rw [ByteArray.size_extract, toUTF8_eq_encoded text, List.size_toByteArray,
    Nat.min_eq_left hle] at hsize
  have hlt : start < stop := by omega
  have hascii : ∀ i (hi : i < source.toUTF8.size), start ≤ i → i < stop →
      source.toUTF8[i] < 128 := by
    intro i hi hstart hstop
    have hinside : i - start < (source.toUTF8.extract start stop).size := by
      rw [ByteArray.size_extract]
      omega
    have hmem : source.toUTF8[i] ∈ (source.toUTF8.extract start stop).data.toList := by
      have hget := ByteArray.getElem_extract hinside
      simp only [Nat.add_sub_cancel' hstart] at hget
      rw [← hget, ByteArray.getElem_eq_getElem_data]
      exact Array.mem_toList_iff.mpr (Array.getElem_mem _)
    rw [htext, toUTF8_eq_encoded, List.data_toByteArray] at hmem
    exact hspells.ascii _ hmem
  have hlastLt : stop - 1 < source.toUTF8.size := by omega
  have hfirst := onBoundary_of_ascii source.isValidUTF8 (Nat.lt_of_lt_of_le hlt hle)
    (hascii start (Nat.lt_of_lt_of_le hlt hle) (Nat.le_refl _) hlt)
  have hlast := onBoundary_of_ascii source.isValidUTF8 hlastLt
    (hascii (stop - 1) hlastLt (by omega) (by omega))
  rw [Nat.sub_add_cancel (by omega)] at hlast
  exact ⟨hlt, hfirst.1, hlast.2⟩

/-- Places that are counted in bytes are places between characters. -/
theorem Token.SpelledIn.exists_append {source : String} {t : Token} (h : t.SpelledIn source) :
    ∃ front text back : String, source = front ++ text ++ back ∧ t.kind.Spells text.toList ∧
      t.start = front.utf8ByteSize ∧ t.stop = t.start + text.utf8ByteSize := by
  obtain ⟨hle, text, hspells, htext⟩ := h
  obtain ⟨hlt, hstart, hstop⟩ := onBoundaries_of_spells hspells hle htext
  have hback := hstop.extract (.size source.isValidUTF8) source.isValidUTF8 hle
  have hsize := congrArg ByteArray.size htext
  rw [ByteArray.size_extract, Nat.min_eq_left hle] at hsize
  have htextSize : t.stop - t.start = text.utf8ByteSize := hsize
  refine ⟨.ofByteArray _ hstart.front, text, .ofByteArray _ hback, ?_, hspells, ?_, by omega⟩
  · rw [← String.toByteArray_inj, String.toByteArray_append, String.toByteArray_append]
    show source.toUTF8 = source.toUTF8.extract 0 t.start ++ text.toUTF8 ++
      source.toUTF8.extract t.stop source.toUTF8.size
    rw [← htext, ← ByteArray.extract_eq_extract_append_extract t.start (Nat.zero_le _) hlt.le,
      ← ByteArray.extract_eq_extract_append_extract t.stop (Nat.zero_le _) hle,
      ByteArray.extract_zero_size]
  · show t.start = (source.toUTF8.extract 0 t.start).size
    rw [ByteArray.size_extract, Nat.min_eq_left hstart.le_size, Nat.sub_zero]

theorem Token.spelledIn_of_append {front text back : String} {t : Token}
    (hspells : t.kind.Spells text.toList) (hstart : t.start = front.utf8ByteSize)
    (hstop : t.stop = t.start + text.utf8ByteSize) : t.SpelledIn (front ++ text ++ back) := by
  refine ⟨?_, text, hspells, ?_⟩
  · show t.stop ≤ (front ++ text ++ back).utf8ByteSize
    rw [hstop, hstart, String.utf8ByteSize_append, String.utf8ByteSize_append]
    exact Nat.le_add_right _ _
  · show (front ++ text ++ back).toByteArray.extract t.start t.stop = text.toByteArray
    rw [hstop, hstart, String.toByteArray_append, String.toByteArray_append,
      ByteArray.extract_append, ByteArray.extract_append_eq_right String.size_toByteArray.symm
        (congrArg₂ (· + ·) String.size_toByteArray.symm String.size_toByteArray.symm)]
    simp [String.size_toByteArray]

theorem utf8ByteSize_ofList (cs : List Char) :
    (String.ofList cs).utf8ByteSize = (encoded cs).length := by
  have h := congrArg ByteArray.size (toUTF8_eq_encoded (.ofList cs))
  rw [String.toList_ofList, List.size_toByteArray] at h
  exact h

theorem mem_ofSource {source : String} {t : Token} :
    t ∈ Token.ofSource source ↔ .token t ∈ piecesFrom 0 source.toList := by
  constructor
  · intro h
    obtain ⟨p, hp, hpt⟩ := List.mem_filterMap.mp h
    cases p with
    | text c => cases hpt
    | token t' =>
      cases hpt
      exact hp
  · exact fun h => List.mem_filterMap.mpr ⟨_, h, rfl⟩

/-- The tokens that are read are the leftmost ones. -/
theorem leftmost_ofSource (source : String) : Leftmost source (Token.ofSource source) := by
  have hspelled : ∀ t ∈ Token.ofSource source, t.SpelledIn source := by
    intro t ht
    obtain ⟨front, text, back, hcs, hspells, hstart, hstop⟩ :=
      spells_of_mem_piecesFrom (mem_ofSource.mp ht)
    have hsource : source = .ofList front ++ .ofList text ++ .ofList back := by
      rw [← String.ofList_append, ← String.ofList_append, ← hcs, String.ofList_toList]
    rw [hsource]
    refine Token.spelledIn_of_append (by rwa [String.toList_ofList]) ?_ ?_
    · rw [hstart, utf8ByteSize_ofList, Nat.zero_add]
    · rw [hstop, utf8ByteSize_ofList]
  have hends : ∀ t ∈ Token.ofSource source, t.start < t.stop ∧
      OnBoundary source.toUTF8 t.start ∧ OnBoundary source.toUTF8 t.stop := by
    intro t ht
    obtain ⟨hle, text, hspells, htext⟩ := hspelled t ht
    exact onBoundaries_of_spells hspells hle htext
  refine ⟨hspelled, fun t ht => (hends t ht).1, pairwise_piecesFrom 0 _,
    fun t ht => (hends t ht).2, fun t ht => ?_⟩
  obtain ⟨front, text, back, hsource, hspells, hstart, hstop⟩ := ht.exists_append
  rw [← String.ofList_toList (s := front), utf8ByteSize_ofList] at hstart
  rw [← String.ofList_toList (s := text), utf8ByteSize_ofList] at hstop
  have hcs : source.toList = front.toList ++ text.toList ++ back.toList := by
    rw [hsource, String.toList_append, String.toList_append]
  have hfront : t.start = 0 + (encoded front.toList).length := by
    rw [hstart, Nat.zero_add]
  rcases mem_or_inside_piecesFrom hcs hspells hfront hstop with hmem | ⟨s, hs, hinside⟩
  · exact .inl (mem_ofSource.mpr hmem)
  · exact .inr ⟨s, mem_ofSource.mpr hs, hinside⟩

namespace Leftmost

variable {source : String} {tokens tokens' : List Token} {s t : Token}

/-- Two of the tokens do not overlap. -/
theorem apart (h : Leftmost source tokens) (hs : s ∈ tokens) (ht : t ∈ tokens) (hne : s ≠ t) :
    s.stop ≤ t.start ∨ t.stop ≤ s.start := by
  have : Std.Symm fun s t : Token => s.stop ≤ t.start ∨ t.stop ≤ s.start :=
    ⟨fun _ _ => Or.symm⟩
  have happart : tokens.Pairwise fun s t => s.stop ≤ t.start ∨ t.stop ≤ s.start :=
    h.increasing.imp Or.inl
  exact happart.forall hs ht hne

/-- If two choices agree up to a token of one of them, then it is a token of the other. -/
theorem mem_of_before (h : Leftmost source tokens) (h' : Leftmost source tokens')
    (hbefore : ∀ s ∈ tokens', s.start < t.start → s ∈ tokens) (ht : t ∈ tokens) :
    t ∈ tokens' := by
  rcases h'.complete t (h.spelled t ht) with hmem | ⟨s, hs, hlt, hinside⟩
  · exact hmem
  · have hne : s ≠ t := fun heq => absurd hlt (heq ▸ Nat.lt_irrefl _)
    rcases h.apart (hbefore s hs hlt) ht hne with hle | hle
    · omega
    · have hstop := h.start_lt_stop t ht
      omega

theorem nodup (h : Leftmost source tokens) : tokens.Nodup := by
  refine h.increasing.imp_of_mem fun {s t} hs _ hle heq => ?_
  have hstop := h.start_lt_stop s hs
  subst heq
  omega

/-- There is one way only to choose the leftmost tokens. -/
theorem unique (h : Leftmost source tokens) (h' : Leftmost source tokens') : tokens = tokens' := by
  have hsame : ∀ (n : Nat) (t : Token), t.start < n → (t ∈ tokens ↔ t ∈ tokens') := by
    intro n
    induction n with
    | zero => exact fun t hlt => absurd hlt (Nat.not_lt_zero _)
    | succ n ih =>
      intro t hlt
      constructor
      · exact h.mem_of_before h' fun s hs hs' => (ih s (by omega)).mpr hs
      · exact h'.mem_of_before h fun s hs hs' => (ih s (by omega)).mp hs
  have hperm : tokens.Perm tokens' :=
    (List.perm_ext_iff_of_nodup h.nodup h'.nodup).mpr fun t => hsame (t.start + 1) t (by omega)
  refine hperm.eq_of_pairwise (fun s t hs ht hle hle' => ?_) h.increasing h'.increasing
  have hstop := h.start_lt_stop s hs
  have hstop' := h'.start_lt_stop t ht
  omega

end Leftmost

/-- The tokens of a source are the leftmost ones that do not overlap: these and no others. -/
theorem ofSource_eq_iff_leftmost (source : String) (tokens : List Token) :
    Token.ofSource source = tokens ↔ Leftmost source tokens := by
  constructor
  · rintro rfl
    exact leftmost_ofSource source
  · exact (leftmost_ofSource source).unique

end HtmlTemplate
