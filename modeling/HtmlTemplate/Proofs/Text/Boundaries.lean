import Mathlib.Data.Nat.Bitwise
import Mathlib.Tactic.SplitIfs
import HtmlTemplate.Proofs.Rendering.Blindness

/-!
# Character boundaries

Bytes are cut at offsets: literal bytes at markers and tags, the output where an element is
dropped. What is cut is text again if no character is split. `OnBoundary` says that of an offset.

Results:
1. `OnBoundary.extract`: the bytes between two boundaries are text.
2. `onBoundary_of_ascii`: there is a boundary on either side of an ASCII byte.
3. `isValidUTF8_appendEscaped`: escaped text is text.
4. `Response.exists_text_of_apply`: calls that write strings add text to the output.
-/

namespace HtmlTemplate

/-! ## 1. Boundaries -/

/-- The offset splits no character: what stands before it is text. -/
structure OnBoundary (bytes : ByteArray) (offset : Nat) : Prop where
  le_size : offset ≤ bytes.size
  front : (bytes.extract 0 offset).IsValidUTF8

section

variable {bytes more : ByteArray} {start stop offset : Nat}

theorem OnBoundary.zero (bytes : ByteArray) : OnBoundary bytes 0 :=
  ⟨Nat.zero_le _, by simp⟩

theorem OnBoundary.size (h : bytes.IsValidUTF8) : OnBoundary bytes bytes.size :=
  ⟨Nat.le_refl _, by simpa using h⟩

/-- The end of the first part is a boundary. -/
theorem OnBoundary.of_append (h : bytes.IsValidUTF8) (more : ByteArray) :
    OnBoundary (bytes ++ more) bytes.size :=
  ⟨by simp, by rwa [ByteArray.extract_append_eq_left rfl]⟩

theorem OnBoundary.append (h : OnBoundary bytes offset) (more : ByteArray) :
    OnBoundary (bytes ++ more) offset := by
  refine ⟨by simp [Nat.le_add_right_of_le h.le_size], ?_⟩
  rw [ByteArray.extract_append, Nat.sub_eq_zero_of_le h.le_size]
  simpa using h.front

/-- What is cut off behind a boundary does not matter. -/
theorem OnBoundary.extract_zero (h : OnBoundary bytes offset) (hle : offset ≤ stop)
    (hstop : stop ≤ bytes.size) : OnBoundary (bytes.extract 0 stop) offset := by
  refine ⟨by simpa [Nat.min_eq_left hstop] using hle, ?_⟩
  rw [ByteArray.extract_extract]
  simpa [Nat.min_eq_left hle] using h.front

/-- A boundary is a valid position of the string. -/
theorem OnBoundary.isValid (h : OnBoundary bytes offset) (hbytes : bytes.IsValidUTF8) :
    String.Pos.Raw.IsValid (.ofByteArray bytes hbytes) ⟨offset⟩ :=
  String.Pos.Raw.isValid_iff_isValidUTF8_extract_zero.mpr ⟨h.le_size, h.front⟩

theorem onBoundary_of_isValid (hbytes : bytes.IsValidUTF8)
    (h : String.Pos.Raw.IsValid (.ofByteArray bytes hbytes) ⟨offset⟩) : OnBoundary bytes offset :=
  have ⟨hle, hfront⟩ := String.Pos.Raw.isValid_iff_isValidUTF8_extract_zero.mp h
  ⟨hle, hfront⟩

/-- The bytes between two boundaries are text. -/
theorem OnBoundary.extract (hstart : OnBoundary bytes start) (hstop : OnBoundary bytes stop)
    (hbytes : bytes.IsValidUTF8) (hle : start ≤ stop) :
    (bytes.extract start stop).IsValidUTF8 :=
  (String.Pos.Raw.isValidUTF8_extract_iff (s := .ofByteArray bytes hbytes) ⟨start⟩ ⟨stop⟩ hle
    hstop.le_size).mpr (.inr ⟨hstart.isValid hbytes, hstop.isValid hbytes⟩)

theorem isUTF8FirstByte_of_ascii {byte : UInt8} (h : byte < 128) : byte.IsUTF8FirstByte := by
  have hbit : byte.toNat &&& 2 ^ 7 = 0 := by
    rw [Nat.and_two_pow, Nat.testBit_lt_two_pow h]
    rfl
  exact .inl (UInt8.toNat.inj (by simpa using hbit))

/-- An ASCII byte is a character of its own. -/
theorem isValidUTF8_of_ascii {byte : UInt8} (h : byte < 128) : [byte].toByteArray.IsValidUTF8 := by
  have hvalid := Char.isValidUTF8_toByteArray_utf8EncodeChar (c := Char.ofUInt8 byte)
  rwa [utf8EncodeChar_ofUInt8 h] at hvalid

/-- There is a boundary on either side of an ASCII byte. -/
theorem onBoundary_of_ascii (hbytes : bytes.IsValidUTF8) (hlt : offset < bytes.size)
    (hascii : bytes[offset] < 128) :
    OnBoundary bytes offset ∧ OnBoundary bytes (offset + 1) := by
  have hbefore : OnBoundary bytes offset :=
    onBoundary_of_isValid hbytes
      (String.Pos.Raw.isValid_iff_isUTF8FirstByte.mpr (.inr ⟨hlt, isUTF8FirstByte_of_ascii hascii⟩))
  refine ⟨hbefore, hlt, ?_⟩
  rw [ByteArray.extract_eq_extract_append_extract offset (Nat.zero_le _) (Nat.le_succ _),
    ByteArray.extract_add_one hlt]
  exact hbefore.front.append (isValidUTF8_of_ascii hascii)

end

/-! ## 2. Escaped text -/

/-- Special bytes are ASCII bytes, and text stands for each. -/
def Entity.Table.Textual (table : Entity.Table) : Prop :=
  ∀ byte entity, table byte = some entity → byte < 128 ∧ entity.IsValidUTF8

theorem Entity.textual_html : Entity.html.Textual := by
  intro byte entity h
  unfold Entity.html at h
  split_ifs at h <;> cases h <;> refine ⟨?_, String.isValidUTF8 _⟩ <;> subst byte <;> decide

theorem Entity.textual_doubleQuote : Entity.doubleQuote.Textual := by
  intro byte entity h
  unfold Entity.doubleQuote at h
  split_ifs at h
  cases h
  refine ⟨?_, String.isValidUTF8 _⟩
  subst byte
  decide

/-- What is written of text is text: the runs are cut at ASCII bytes. -/
theorem Entity.isValidUTF8_appendRuns {table : Entity.Table} (ht : table.Textual)
    {bytes out : ByteArray} (hbytes : bytes.IsValidUTF8) {run i : Nat} (hle : run ≤ i)
    (hrun : OnBoundary bytes run) (hout : out.IsValidUTF8) :
    (Entity.appendRuns table bytes run i out).IsValidUTF8 := by
  fun_induction Entity.appendRuns table bytes run i out with
  | case1 run i out hlt entity hentity ih =>
    obtain ⟨hascii, hvalid⟩ := ht _ _ hentity
    obtain ⟨hi, hnext⟩ := onBoundary_of_ascii hbytes hlt hascii
    exact ih (Nat.le_refl _) hnext ((hout.append (hrun.extract hi hbytes hle)).append hvalid)
  | case2 run i out hlt hnone ih => exact ih (Nat.le_succ_of_le hle) hrun hout
  | case3 run i out hge => exact hout.append (hrun.extract (.size hbytes) hbytes hrun.le_size)

theorem Entity.isValidUTF8_appendEscaped {table : Entity.Table} (ht : table.Textual)
    {out bytes : ByteArray} (hout : out.IsValidUTF8) (hbytes : bytes.IsValidUTF8) :
    (Entity.appendEscaped table out bytes).IsValidUTF8 :=
  Entity.isValidUTF8_appendRuns ht hbytes (Nat.le_refl 0) (.zero bytes) hout

theorem Utf8.fromUTF8?_eq_some {bytes : ByteArray} (h : bytes.IsValidUTF8) :
    String.fromUTF8? bytes = some (.ofByteArray bytes h) :=
  dif_pos h

/-- Text is read as it is, with no byte replaced. -/
theorem Utf8.toUTF8_toText {bytes : ByteArray} (h : bytes.IsValidUTF8) :
    (Utf8.toText bytes).toUTF8 = bytes := by
  rw [Utf8.toText, fromUTF8?_eq_some h]
  rfl

/-! ## 3. Calls on a response -/

namespace Response

/-- The call writes strings only, or nothing. -/
def Call.Textual : Call → Prop
  | .writeBytes _ | .writeRawBytes _ => False
  | .write _ | .writeRaw _ | .addAttribute _ _ | .addRawAttribute _ _ | .addFlag _
  | .setStatus _ | .halt | .redirect _ _ | .giveUp => True

variable {r : Response}

/-- A longer output is text, if it is made so from output that is text. -/
theorem isValidUTF8_extend {f : ByteArray → ByteArray} (h : r.output.IsValidUTF8)
    (hf : ∀ out : ByteArray, out.IsValidUTF8 → (f out).IsValidUTF8) :
    (r.extend f).output.IsValidUTF8 := by
  unfold extend
  split
  · exact h
  · exact hf _ h

theorem isValidUTF8_writeRawBytes {bytes : ByteArray} (h : r.output.IsValidUTF8)
    (hbytes : bytes.IsValidUTF8) : (r.writeRawBytes bytes).output.IsValidUTF8 :=
  isValidUTF8_extend (f := (· ++ bytes)) h fun _ hout => hout.append hbytes

theorem isValidUTF8_writeRaw (h : r.output.IsValidUTF8) (html : String) :
    (r.writeRaw html).output.IsValidUTF8 :=
  isValidUTF8_writeRawBytes h html.isValidUTF8

theorem isValidUTF8_extendEscaped {table : Entity.Table} (ht : table.Textual)
    (h : r.output.IsValidUTF8) (text : String) :
    (r.extend (Entity.appendEscaped table · text.toUTF8)).output.IsValidUTF8 :=
  isValidUTF8_extend h fun _ hout => Entity.isValidUTF8_appendEscaped ht hout text.isValidUTF8

theorem isValidUTF8_write (h : r.output.IsValidUTF8) (text : String) :
    (r.write text).output.IsValidUTF8 :=
  isValidUTF8_extendEscaped Entity.textual_html h text

theorem isValidUTF8_writeKey (h : r.output.IsValidUTF8) (key : String) (escaped : Bool) :
    (r.writeKey key escaped).output.IsValidUTF8 := by
  have hblank := isValidUTF8_writeRaw h " "
  unfold writeKey
  simp only
  split
  · exact isValidUTF8_writeRaw hblank "_"
  · split
    · exact isValidUTF8_write hblank key
    · exact isValidUTF8_writeRaw hblank key

/-- Calls that write strings keep the output text. -/
theorem isValidUTF8_apply {call : Call} (hc : call.Textual) (h : r.output.IsValidUTF8) :
    (r.apply call).output.IsValidUTF8 := by
  cases call with
  | write text => exact isValidUTF8_write h text
  | writeRaw html => exact isValidUTF8_writeRaw h html
  | writeBytes | writeRawBytes => cases hc
  | addAttribute key value =>
    have hfront := isValidUTF8_writeRaw (isValidUTF8_writeKey h key true) "=\""
    exact isValidUTF8_writeRaw (isValidUTF8_write hfront value) "\""
  | addRawAttribute key value =>
    have hfront := isValidUTF8_writeRaw (isValidUTF8_writeKey h key false) "=\""
    exact isValidUTF8_writeRaw
      (isValidUTF8_extendEscaped Entity.textual_doubleQuote hfront value) "\""
  | addFlag key => exact isValidUTF8_writeKey h key true
  | setStatus | halt | redirect | giveUp => exact h

/-- What a call writes that writes strings is text of its own. -/
theorem exists_text_of_apply {call : Call} (hc : call.Textual) (r : Response) :
    ∃ text : String, (r.apply call).output = r.output ++ text.toUTF8 := by
  let empty : Response := { r with output := .empty }
  have hr : empty.behind r.output = r := by simp [empty, behind]
  have hbehind := congrArg Response.output (empty.behind_apply r.output call)
  rw [hr] at hbehind
  exact ⟨.ofByteArray _ (isValidUTF8_apply (r := empty) hc ByteArray.isValidUTF8_empty), hbehind⟩

end Response

end HtmlTemplate
