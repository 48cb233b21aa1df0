import HtmlTemplate.Template.Token
import Mathlib.Data.List.Basic

/-!
# Where the pieces of a source stand

A source is split into pieces by its characters, while tokens give byte offsets. Both agree:
the pieces cover the bytes of the source in order and without gaps.

Results:
1. `toList_of_ascii`, `pieces_of_ascii`: the characters of an ASCII source are its bytes.
   `exists_of_atHead?`: a token says how many bytes it takes.
2. `Covers`: pieces that spell the bytes of a source from an offset on. `covers_pieces`: the
   pieces of a source spell all of it.
-/

namespace HtmlTemplate

/-! ## 1. The bytes of a token -/

/-- The bytes of a text. -/
def encoded (cs : List Char) : List UInt8 := cs.flatMap String.utf8EncodeChar

@[simp] theorem encoded_nil : encoded [] = [] := rfl

@[simp] theorem encoded_cons (c : Char) (cs : List Char) :
    encoded (c :: cs) = String.utf8EncodeChar c ++ encoded cs := rfl

@[simp] theorem encoded_append (cs cs' : List Char) :
    encoded (cs ++ cs') = encoded cs ++ encoded cs' :=
  List.flatMap_append

/-- The bytes of a source. -/
def sourceBytes (source : String) : List UInt8 := source.toUTF8.data.toList

theorem length_sourceBytes (source : String) :
    (sourceBytes source).length = source.utf8ByteSize := rfl

theorem sourceBytes_eq (source : String) : sourceBytes source = encoded source.toList := by
  have h : source.toByteArray = source.toList.utf8Encode := by
    rw [← String.toByteArray_ofList, String.ofList_toList]
  simp [sourceBytes, encoded, h, List.utf8Encode]

theorem toUInt8_ofUInt8 (byte : UInt8) : (Char.ofUInt8 byte).toUInt8 = byte := by
  show byte.toUInt32.toUInt8 = byte
  simp

/-- An ASCII byte is the encoding of a character. -/
theorem utf8EncodeChar_ofUInt8 {byte : UInt8} (h : byte < 128) :
    String.utf8EncodeChar (Char.ofUInt8 byte) = [byte] := by
  have hsize : (Char.ofUInt8 byte).utf8Size = 1 := by
    have hlt : byte.toNat < 128 := h
    rw [Char.utf8Size_eq_one_iff]
    show byte.toUInt32.toNat ≤ 127
    rw [UInt8.toNat_toUInt32]
    omega
  rw [String.utf8EncodeChar_eq_singleton hsize]
  exact congrArg ([·]) (toUInt8_ofUInt8 byte)

/-- The characters of an ASCII text are its bytes. -/
theorem toList_of_ascii {source : String} (h : ∀ byte ∈ sourceBytes source, byte < 128) :
    source.toList = (sourceBytes source).map Char.ofUInt8 := by
  have hencoded : ∀ bytes : List UInt8, (∀ byte ∈ bytes, byte < 128) →
      encoded (bytes.map Char.ofUInt8) = bytes := by
    intro bytes hbytes
    induction bytes with
    | nil => rfl
    | cons byte bytes ih =>
      obtain ⟨hbyte, hbytes⟩ := List.forall_mem_cons.mp hbytes
      rw [List.map_cons, encoded_cons, utf8EncodeChar_ofUInt8 hbyte, ih hbytes]
      rfl
  have hbytes : sourceBytes source =
      sourceBytes (.ofList ((sourceBytes source).map Char.ofUInt8)) := by
    rw [sourceBytes_eq (.ofList _), String.toList_ofList, hencoded _ h]
  have hsource : source = .ofList ((sourceBytes source).map Char.ofUInt8) :=
    String.toByteArray_inj.mp (ByteArray.ext (Array.toList_inj.mp hbytes))
  exact (congrArg String.toList hsource).trans String.toList_ofList

/-- So its pieces are found without decoding it. -/
theorem pieces_of_ascii {source : String} (h : ∀ byte ∈ sourceBytes source, byte < 128) :
    pieces source = piecesFrom 0 ((sourceBytes source).map Char.ofUInt8) := by
  rw [pieces, toList_of_ascii h]

namespace Token

theorem utf8Size_of_isNamePart {c : Char} (h : isNamePart c = true) : c.utf8Size = 1 := by
  have hsmall : c.val ≤ 'z'.val ∨ c = '-' ∨ c = '_' := by
    have hall : (((c.isUpper || c.isLower) || c.isDigit) || c = '-' || c = '_') = true := h
    simp only [Bool.or_eq_true, decide_eq_true_eq] at hall
    rcases hall with (((hupper | hlower) | hdigit) | hdash) | hunderscore
    · exact .inl (UInt32.le_trans (of_decide_eq_true hupper).2 (by decide))
    · exact .inl (of_decide_eq_true (Bool.and_eq_true_iff.mp hlower).2)
    · have hle : c.val ≤ '9'.val := of_decide_eq_true (Bool.and_eq_true_iff.mp hdigit).2
      exact .inl (UInt32.le_trans hle (by decide))
    · exact .inr (.inl hdash)
    · exact .inr (.inr hunderscore)
  rw [Char.utf8Size_eq_one_iff]
  rcases hsmall with hle | rfl | rfl
  · exact UInt32.le_trans hle (by decide)
  · decide
  · decide

theorem isNamePart_of_isNameStart {c : Char} (h : isNameStart c = true) : isNamePart c = true := by
  simp only [isNameStart] at h
  simp [isNamePart, Char.isAlphanum, h]

theorem length_encoded_name {name : List Char} (h : ∀ c ∈ name, isNamePart c = true) :
    (encoded name).length = name.length := by
  induction name with
  | nil => rfl
  | cons c name ih =>
    rw [encoded_cons, List.length_append, String.length_utf8EncodeChar,
      utf8Size_of_isNamePart (h c List.mem_cons_self),
      ih fun c' hc' => h c' (List.mem_cons_of_mem c hc'), List.length_cons, Nat.add_comm]

theorem eq_append_of_nameBrace? {cs name rest : List Char} (h : nameBrace? cs = some (name, rest)) :
    cs = name ++ '}' :: rest ∧ ∀ c ∈ name, isNamePart c = true := by
  cases cs with
  | nil => cases h
  | cons c cs =>
    simp only [nameBrace?] at h
    split at h
    · next hc =>
      split at h
      · next rest' hrest =>
        cases h
        refine ⟨?_, List.forall_mem_cons.mpr ⟨isNamePart_of_isNameStart hc, fun c' hc' => ?_⟩⟩
        · rw [List.cons_append, ← hrest, List.takeWhile_append_dropWhile]
        · exact List.all_eq_true.mp List.all_takeWhile c' hc'
      · cases h
    · cases h

theorem exists_of_nameBrace? {cs name rest : List Char} (h : nameBrace? cs = some (name, rest)) :
    ∃ front, cs = front ++ rest ∧ (encoded front).length = name.length + 1 := by
  obtain ⟨rfl, hname⟩ := eq_append_of_nameBrace? h
  refine ⟨name ++ ['}'], by simp, ?_⟩
  rw [encoded_append, List.length_append, length_encoded_name hname]
  rfl

/-- The size of a token is the number of bytes that it takes from the text. -/
theorem exists_of_atHead? {cs rest : List Char} {kind : TokenKind} {size : Nat}
    (h : atHead? cs = some (kind, size, rest)) :
    ∃ front, cs = front ++ rest ∧ (encoded front).length = size := by
  unfold atHead? at h
  split at h
  · cases h
    exact ⟨['$', '{', '{', '}', '}'], rfl, rfl⟩
  · cases h
    exact ⟨['$', '{', '}'], rfl, rfl⟩
  · cases h
    exact ⟨['}', '}'], rfl, rfl⟩
  · obtain ⟨⟨name, tail⟩, hn, he⟩ := Option.map_eq_some_iff.mp h
    cases he
    obtain ⟨front, rfl, hsize⟩ := exists_of_nameBrace? hn
    refine ⟨'$' :: '{' :: '{' :: front, rfl, ?_⟩
    show (encoded front).length + 3 = name.length + 4
    rw [hsize]
  · obtain ⟨⟨name, tail⟩, hn, he⟩ := Option.map_eq_some_iff.mp h
    cases he
    obtain ⟨front, rfl, hsize⟩ := exists_of_nameBrace? hn
    refine ⟨'$' :: '{' :: front, rfl, ?_⟩
    show (encoded front).length + 2 = name.length + 3
    rw [hsize]
  · cases h

end Token

/-! ## 2. All pieces -/

/-- The pieces spell the bytes from `offset` on: each character of text is there, and a token
takes the bytes between its offsets. -/
inductive Covers (bytes : List UInt8) : Nat → List Piece → Prop
  | nil : Covers bytes bytes.length []
  | text {offset : Nat} {c : Char} {pieces : List Piece} :
      (bytes.drop offset).take c.utf8Size = String.utf8EncodeChar c →
      Covers bytes (offset + c.utf8Size) pieces → Covers bytes offset (.text c :: pieces)
  | token {t : Token} {pieces : List Piece} :
      t.start ≤ t.stop → Covers bytes t.stop pieces → Covers bytes t.start (.token t :: pieces)

theorem Covers.offset_le {bytes : List UInt8} {offset : Nat} {pieces : List Piece}
    (h : Covers bytes offset pieces) : offset ≤ bytes.length := by
  induction h with
  | nil => exact Nat.le_refl _
  | text _ _ ih => omega
  | token hle _ ih => exact Nat.le_trans hle ih

/-- A character of text is spelled somewhere. -/
theorem Covers.mem_of_text {bytes : List UInt8} {offset : Nat} {pieces : List Piece}
    (h : Covers bytes offset pieces) {c : Char} (hc : Piece.text c ∈ pieces) {byte : UInt8}
    (hb : byte ∈ String.utf8EncodeChar c) : byte ∈ bytes := by
  induction h with
  | nil => cases hc
  | text hspelled _ ih =>
    rcases List.mem_cons.mp hc with heq | hc
    · cases heq
      exact List.mem_of_mem_drop (List.mem_of_mem_take (hspelled ▸ hb))
    · exact ih hc
  | token _ _ ih =>
    rcases List.mem_cons.mp hc with heq | hc
    · cases heq
    · exact ih hc

theorem covers_piecesFrom {bytes : List UInt8} {offset : Nat} {cs front : List Char}
    (hbytes : bytes = encoded (front ++ cs)) (hoffset : offset = (encoded front).length) :
    Covers bytes offset (piecesFrom offset cs) := by
  fun_induction piecesFrom offset cs generalizing front with
  | case1 offset cs kind size rest hhead hlt ih =>
    obtain ⟨token, rfl, hsize⟩ := Token.exists_of_atHead? hhead
    have hbytes' : bytes = encoded (front ++ token ++ rest) := by rw [hbytes, List.append_assoc]
    have hoffset' : offset + size = (encoded (front ++ token)).length := by
      rw [hoffset, encoded_append, List.length_append, hsize]
    exact .token (t := ⟨kind, offset, offset + size⟩) (Nat.le_add_right _ _) (ih hbytes' hoffset')
  | case2 offset hhead =>
    rw [hoffset, ← List.append_nil front, ← hbytes]
    exact .nil
  | case3 offset c rest hhead ih =>
    have hbytes' : bytes = encoded (front ++ [c] ++ rest) := by rw [hbytes, List.append_cons]
    have hoffset' : offset + c.utf8Size = (encoded (front ++ [c])).length := by
      rw [hoffset, encoded_append, List.length_append, encoded_cons, encoded_nil, List.append_nil,
        String.length_utf8EncodeChar]
    refine .text ?_ (ih hbytes' hoffset')
    rw [hbytes, hoffset, encoded_append, List.drop_left, encoded_cons,
      ← String.length_utf8EncodeChar, List.take_left]

/-- The pieces of a source spell it. -/
theorem covers_pieces (source : String) : Covers (sourceBytes source) 0 (pieces source) := by
  rw [sourceBytes_eq]
  have hbytes : encoded source.toList = encoded ([] ++ source.toList) := rfl
  exact covers_piecesFrom hbytes rfl

end HtmlTemplate
