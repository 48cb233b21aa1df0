import HtmlTemplate.Proofs.Text.Boundaries
import HtmlTemplate.Proofs.Text.Escaping

/-!
# Text in portions

Text that is escaped may be written in one piece or in many, and may be escaped before it is
written. It is all the same: bytes are replaced one by one, so that it does not matter where a text
is cut, not even inside of a character.

Results:
1. `foldl_put`: calls that write text add the bytes of all their texts, escaped.
2. `escapeBuffer_eq`: text that is escaped from its first special byte on is escaped as a whole.
3. `portions_agree`: all ways to escape a text agree.
-/

namespace HtmlTemplate

/-! ## 1. Calls that write text -/

namespace Response

/-- A call that writes text escaped. What is displayed or formatted hands over its text piece by
piece. -/
inductive TextCall where
  | write (text : String)
  | writeBytes (bytes : ByteArray)
  | display (pieces : List String)

/-- The bytes of the text, before they are escaped. -/
def TextCall.source : TextCall → List UInt8
  | .write text => text.toUTF8.data.toList
  | .writeBytes bytes => bytes.data.toList
  | .display pieces => pieces.flatMap fun piece => piece.toUTF8.data.toList

/-- The response after the call. -/
def put (r : Response) : TextCall → Response
  | .write text => r.write text
  | .writeBytes bytes => r.writeBytes bytes
  | .display pieces => pieces.foldl write r

/-- The response with more bytes in its output. -/
def adding (r : Response) (added : List UInt8) : Response :=
  { r with output := r.output ++ added.toByteArray }

variable {r : Response}

theorem adding_nil (r : Response) : r.adding [] = r := by
  simp [adding]

theorem adding_append (r : Response) (added more : List UInt8) :
    r.adding (added ++ more) = (r.adding added).adding more := by
  simp [adding, ByteArray.append_assoc]

theorem writeBytes_eq_adding (h : r.halted = false) (bytes : ByteArray) :
    r.writeBytes bytes = r.adding (Entity.html.escaped bytes.data.toList) := by
  have houtput : Entity.appendEscaped Entity.html r.output bytes =
      r.output ++ (Entity.html.escaped bytes.data.toList).toByteArray := by
    refine ByteArray.ext (Array.toList_inj.mp ?_)
    rw [Entity.appendEscaped_eq]
    simp [ByteArray.data_append]
  simp [writeBytes, adding, h, houtput]

theorem foldl_write (h : r.halted = false) (pieces : List String) :
    pieces.foldl write r =
      r.adding (Entity.html.escaped (TextCall.display pieces).source) := by
  induction pieces generalizing r with
  | nil => exact (adding_nil r).symm
  | cons piece pieces ih =>
    rw [List.foldl_cons, write, writeBytes_eq_adding h, ih (by exact h), ← adding_append]
    simp [TextCall.source, Entity.Table.escaped]

theorem put_eq_adding (h : r.halted = false) (call : TextCall) :
    r.put call = r.adding (Entity.html.escaped call.source) := by
  cases call with
  | write text => exact writeBytes_eq_adding h text.toUTF8
  | writeBytes bytes => exact writeBytes_eq_adding h bytes
  | display pieces => exact foldl_write h pieces

/-- Where the text is cut is not seen in the output. -/
theorem foldl_put (h : r.halted = false) (calls : List TextCall) :
    calls.foldl put r = r.adding (Entity.html.escaped (calls.flatMap TextCall.source)) := by
  induction calls generalizing r with
  | nil => exact (adding_nil r).symm
  | cons call calls ih =>
    rw [List.foldl_cons, put_eq_adding h, ih (by exact h), ← adding_append]
    simp [Entity.Table.escaped]

end Response

/-! ## 2. Text that is escaped before it is written -/

namespace Entity

/-- No byte of the text is special. -/
def Table.Plain (table : Table) (bytes : List UInt8) : Prop :=
  ∀ byte ∈ bytes, table byte = none

theorem Table.escaped_append (table : Table) (front back : List UInt8) :
    table.escaped (front ++ back) = table.escaped front ++ table.escaped back :=
  List.flatMap_append

theorem Table.Plain.escaped {table : Table} {bytes : List UInt8} (h : table.Plain bytes) :
    table.escaped bytes = bytes := by
  have hself : bytes.flatMap table.replaced = bytes.flatMap List.singleton :=
    List.flatMap_congr fun byte hbyte => by rw [Table.replaced, h byte hbyte]; rfl
  rw [Table.escaped, hself]
  exact List.flatMap_singleton' bytes

/-- The bytes of a text that is copied up to an offset and escaped from there on. -/
def escapeBuffer (s : String) (first : Nat) : ByteArray :=
  appendEscaped html (s.toUTF8.extract 0 first) (s.toUTF8.extract first s.toUTF8.size)

/-- The offset of the first special byte of a text. -/
def firstSpecial? (s : String) : Option Nat :=
  s.toUTF8.data.findIdx? fun byte => (html byte).isSome

variable {s : String} {first : Nat}

theorem firstSpecial?_eq_none_iff :
    firstSpecial? s = none ↔ html.Plain s.toUTF8.data.toList := by
  simp [firstSpecial?, Array.findIdx?_eq_none_iff, Table.Plain]

theorem escapeHtml_of_none (h : firstSpecial? s = none) : escapeHtml s = .unchanged s := by
  rw [firstSpecial?] at h
  simp only [escapeHtml, h]

theorem escapeHtml_of_some (h : firstSpecial? s = some first) :
    escapeHtml s = .changed (Utf8.toText (escapeBuffer s first)) := by
  rw [firstSpecial?] at h
  simp only [escapeHtml, h, escapeBuffer]

/-- There is nothing to escape in front of the first special byte. -/
theorem plain_take (h : firstSpecial? s = some first) :
    html.Plain (s.toUTF8.data.toList.take first) := by
  obtain ⟨hlt, -, hbefore⟩ := Array.findIdx?_eq_some_iff_getElem.mp h
  intro byte hbyte
  obtain ⟨i, hi, rfl⟩ := List.mem_take_iff_getElem.mp hbyte
  simpa using hbefore i (Nat.lt_of_lt_of_le hi (Nat.min_le_left _ _))

/-- Text that is escaped from its first special byte on is escaped as a whole. -/
theorem escapeBuffer_eq (h : firstSpecial? s = some first) :
    escapeBuffer s first = appendEscaped html .empty s.toUTF8 := by
  have hfront : (s.toUTF8.extract 0 first).data.toList = s.toUTF8.data.toList.take first := by
    simp
  have hback : (s.toUTF8.extract first s.toUTF8.size).data.toList =
      s.toUTF8.data.toList.drop first := by
    rw [ByteArray.data_extract, Array.toList_extract, List.extract_eq_take_drop]
    exact List.take_of_length_le (by simp)
  refine ByteArray.ext (Array.toList_inj.mp ?_)
  calc (escapeBuffer s first).data.toList
      = s.toUTF8.data.toList.take first ++ html.escaped (s.toUTF8.data.toList.drop first) := by
        rw [escapeBuffer, appendEscaped_eq, hfront, hback]
    _ = html.escaped (s.toUTF8.data.toList.take first ++ s.toUTF8.data.toList.drop first) := by
        rw [Table.escaped_append, (plain_take h).escaped]
    _ = (appendEscaped html .empty s.toUTF8).data.toList := by
        rw [List.take_append_drop, appendEscaped_eq]
        rfl

/-- So it is text, and no byte of it is taken for an ill-formed character. -/
theorem isValidUTF8_escapeBuffer (h : firstSpecial? s = some first) :
    (escapeBuffer s first).IsValidUTF8 := by
  rw [escapeBuffer_eq h]
  exact isValidUTF8_appendEscaped textual_html ByteArray.isValidUTF8_empty s.isValidUTF8

/-- Escaped text is what is appended to the output if the text is written. -/
theorem toUTF8_escapeHtml (s : String) :
    (escapeHtml s).text.toUTF8 = appendEscaped html .empty s.toUTF8 := by
  cases h : firstSpecial? s with
  | none =>
    refine ByteArray.ext (Array.toList_inj.mp ?_)
    rw [escapeHtml_of_none h, appendEscaped_eq, (firstSpecial?_eq_none_iff.mp h).escaped]
    rfl
  | some first =>
    rw [escapeHtml_of_some h, Escaped.text, Utf8.toUTF8_toText (isValidUTF8_escapeBuffer h),
      escapeBuffer_eq h]

/-! ## 3. All ways to escape a text -/

/-- What is known of a text that is escaped before it is written. -/
structure EscapedAhead (s : String) : Prop where
  /-- It is what is appended to any output if the text is written. -/
  appended : ∀ out, appendEscaped html out s.toUTF8 = out ++ (escapeHtml s).text.toUTF8
  /-- It is the text itself exactly if nothing in it is special. -/
  unchanged : escapeHtml s = .unchanged s ↔ html.Plain s.toUTF8.data.toList
  /-- Else it is read from bytes that are well-formed. -/
  wellFormed : ¬ html.Plain s.toUTF8.data.toList → ∃ first text, firstSpecial? s = some first ∧
    String.fromUTF8? (escapeBuffer s first) = some text ∧ escapeHtml s = .changed text

theorem escapedAhead (s : String) : EscapedAhead s where
  appended out := by
    refine ByteArray.ext (Array.toList_inj.mp ?_)
    rw [toUTF8_escapeHtml, appendEscaped_eq, ByteArray.data_append, Array.toList_append,
      appendEscaped_eq]
    rfl
  unchanged := by
    rw [← firstSpecial?_eq_none_iff]
    cases h : firstSpecial? s with
    | none => simp [escapeHtml_of_none h]
    | some first => simp [escapeHtml_of_some h]
  wellFormed hspecial := by
    rw [← firstSpecial?_eq_none_iff, ← Ne, Option.ne_none_iff_exists'] at hspecial
    obtain ⟨first, h⟩ := hspecial
    have hvalid := isValidUTF8_escapeBuffer h
    refine ⟨first, _, h, Utf8.fromUTF8?_eq_some hvalid, ?_⟩
    rw [escapeHtml_of_some h, Utf8.toText, Utf8.fromUTF8?_eq_some hvalid]
    rfl

end Entity

/-- Copying runs replaces byte by byte, whatever stands before in the output; a text may be
written in any portions; and it may be escaped before it is written. -/
theorem portions_agree :
    (∀ (table : Entity.Table) (out bytes : ByteArray),
      (Entity.appendEscaped table out bytes).data.toList =
        out.data.toList ++ bytes.data.toList.flatMap table.replaced) ∧
      (∀ (r : Response), r.halted = false → ∀ calls calls' : List Response.TextCall,
        calls.flatMap Response.TextCall.source = calls'.flatMap Response.TextCall.source →
        calls.foldl Response.put r = calls'.foldl Response.put r) ∧
      ∀ s, Entity.EscapedAhead s := by
  refine ⟨Entity.appendEscaped_eq, fun r hr calls calls' hsource => ?_, Entity.escapedAhead⟩
  rw [Response.foldl_put hr, Response.foldl_put hr, hsource]

/-- A text in portions, one of them the half of a character, and the same text in one call. -/
theorem portions_agree_halfCharacter :
    let r : Response := { output := "<p>".toUTF8 }
    [Response.TextCall.display ["<", "b", ""], .writeBytes ⟨#[0xC3]⟩, .writeBytes ⟨#[0xA9]⟩,
        .write "&"].foldl Response.put r =
      [Response.TextCall.write "<bé&"].foldl Response.put r :=
  portions_agree.2.1 _ rfl _ _ (by decide +kernel)

end HtmlTemplate
