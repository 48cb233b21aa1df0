import Mathlib.Data.List.Infix
import HtmlTemplate.Text.Entity

/-!
# Reading escaped text back

Escaping copies whole runs of bytes, but it acts on each byte by itself: what stands in the output
for one byte does not depend on the others. So text that holds entities already, or parts of them,
is no exception: its ampersands are replaced, and what reads the entities finds the text again.
Where only the double quote is replaced, an entity of the text itself is taken for a quote; then,
and only then, something else is read.

Results:
1. `appendEscaped_eq`: escaped text is the text with each byte replaced by itself.
2. `decode_escaped_html`, `decode_escaped_doubleQuote`: what reads the entities undoes the escaping.
3. `exists_entity_of_ampersand`: each ampersand in text that is escaped for HTML begins an entity.
4. `escaping_undone`: the output of both ways to escape, whatever stands before it.
-/

namespace HtmlTemplate.Entity

/-! ## 1. Byte by byte -/

/-- What is written for a byte. -/
def Table.replaced (table : Table) (byte : UInt8) : List UInt8 :=
  match table byte with
  | some entity => entity.data.toList
  | none => [byte]

/-- The bytes, each with what is written for it in its place. -/
def Table.escaped (table : Table) (bytes : List UInt8) : List UInt8 :=
  bytes.flatMap table.replaced

@[simp] theorem Table.escaped_nil (table : Table) : table.escaped [] = [] := rfl

@[simp] theorem Table.escaped_cons (table : Table) (byte : UInt8) (bytes : List UInt8) :
    table.escaped (byte :: bytes) = table.replaced byte ++ table.escaped bytes := rfl

theorem toList_extract_succ {bytes : ByteArray} {run i : Nat} (hle : run ≤ i)
    (hlt : i < bytes.size) : (bytes.extract run (i + 1)).data.toList =
      (bytes.extract run i).data.toList ++ [bytes[i]] := by
  rw [ByteArray.extract_eq_extract_append_extract i hle (Nat.le_succ i),
    ByteArray.extract_add_one hlt, ByteArray.data_append, Array.toList_append]
  rfl

theorem toList_drop_eq_cons {bytes : ByteArray} {i : Nat} (hlt : i < bytes.size) :
    bytes.data.toList.drop i = bytes[i] :: bytes.data.toList.drop (i + 1) :=
  List.drop_eq_getElem_cons (by simpa using hlt)

/-- The run is still to be copied as it is, and the bytes behind it are still to be replaced. -/
theorem toList_appendRuns {table : Table} {bytes out : ByteArray} {run i : Nat} (hle : run ≤ i)
    (hi : i ≤ bytes.size) : (appendRuns table bytes run i out).data.toList =
      out.data.toList ++ (bytes.extract run i).data.toList ++
        table.escaped (bytes.data.toList.drop i) := by
  fun_induction appendRuns table bytes run i out with
  | case1 run i out hlt entity hentity ih =>
    have hreplaced : table.replaced bytes[i] = entity.data.toList := by
      rw [Table.replaced, hentity]
    rw [ih (Nat.le_refl _) hlt, toList_drop_eq_cons hlt, Table.escaped_cons, hreplaced]
    simp [ByteArray.data_append]
  | case2 run i out hlt hnone ih =>
    have hreplaced : table.replaced bytes[i] = [bytes[i]] := by
      rw [Table.replaced, hnone]
    rw [ih (Nat.le_succ_of_le hle) hlt, toList_extract_succ hle hlt, toList_drop_eq_cons hlt,
      Table.escaped_cons, hreplaced]
    simp only [List.append_assoc]
  | case3 run i out hge =>
    obtain rfl : i = bytes.size := Nat.le_antisymm hi (Nat.le_of_not_lt hge)
    have hdrop : bytes.data.toList.drop bytes.size = [] := List.drop_eq_nil_of_le (Nat.le_refl _)
    rw [hdrop, Table.escaped_nil, List.append_nil, ByteArray.data_append, Array.toList_append]

/-- What is appended depends on neither the output so far nor the runs that are copied. -/
theorem appendEscaped_eq (table : Table) (out bytes : ByteArray) :
    (appendEscaped table out bytes).data.toList =
      out.data.toList ++ table.escaped bytes.data.toList := by
  rw [appendEscaped, toList_appendRuns (Nat.le_refl 0) (Nat.zero_le _)]
  simp

/-! ## 2. Reading the entities -/

/-- The entities, and the bytes that they stand for. -/
abbrev Code := List (List UInt8 × UInt8)

def ampersand : UInt8 := '&'.toUInt8

/-- The entities that stand for the special bytes of HTML. -/
def htmlCode : Code :=
  [("&amp;".toUTF8.data.toList, '&'.toUInt8), ("&lt;".toUTF8.data.toList, '<'.toUInt8),
    ("&gt;".toUTF8.data.toList, '>'.toUInt8), ("&#34;".toUTF8.data.toList, '"'.toUInt8),
    ("&#39;".toUTF8.data.toList, '\''.toUInt8)]

def doubleQuoteEntity : List UInt8 := "&#34;".toUTF8.data.toList

/-- The entity of the double quote only. -/
def doubleQuoteCode : Code := [(doubleQuoteEntity, '"'.toUInt8)]

/-- Reads entities from left to right. Where none begins, a byte stands for itself. -/
def decode (code : Code) : List UInt8 → List UInt8
  | [] => []
  | byte :: rest =>
    match code.find? fun entity => entity.1.isPrefixOf (byte :: rest) with
    | some entity => entity.2 :: decode code (rest.drop (entity.1.length - 1))
    | none => byte :: decode code rest
termination_by bytes => bytes.length
decreasing_by all_goals simp_wf; try omega

/-- Entities begin with an ampersand and hold no other one, and none is the beginning of
another. -/
structure Code.Readable (code : Code) : Prop where
  head : ∀ entity ∈ code, entity.1.head? = some ampersand
  tail : ∀ entity ∈ code, ampersand ∉ entity.1.tail
  apart : ∀ entity ∈ code, ∀ other ∈ code, entity.1 <+: other.1 → entity = other

theorem readable_htmlCode : Code.Readable htmlCode := by
  constructor <;> decide +kernel

theorem readable_doubleQuoteCode : Code.Readable doubleQuoteCode := by
  constructor <;> decide +kernel

section

variable {code : Code} {text rest front : List UInt8} {byte : UInt8}

theorem Code.Readable.exists_cons (h : code.Readable) (hmem : (text, byte) ∈ code) :
    ∃ tail, text = ampersand :: tail ∧ ampersand ∉ tail := by
  have hhead := h.head _ hmem
  have htail := h.tail _ hmem
  cases text with
  | nil => cases hhead
  | cons first tail =>
    obtain rfl := Option.some.inj hhead
    exact ⟨tail, rfl, htail⟩

/-- An entity is read where it stands. -/
theorem decode_entity (h : code.Readable) (hmem : (text, byte) ∈ code) (rest : List UInt8) :
    decode code (text ++ rest) = byte :: decode code rest := by
  obtain ⟨tail, rfl, -⟩ := h.exists_cons hmem
  have hfind : code.find? (fun entity => entity.1.isPrefixOf (ampersand :: tail ++ rest)) =
      some (ampersand :: tail, byte) := by
    cases hfound : code.find? (fun entity => entity.1.isPrefixOf (ampersand :: tail ++ rest)) with
    | none =>
      have hnot := List.find?_eq_none.mp hfound _ hmem
      exact absurd (List.isPrefixOf_iff_prefix.mpr (List.prefix_append _ rest)) hnot
    | some entity =>
      -- the one that is found and the one that stands there begin alike
      have hprefix : entity.1 <+: ampersand :: tail ++ rest := by
        simpa using List.find?_some hfound
      have hin := List.mem_of_find?_eq_some hfound
      rcases List.prefix_or_prefix_of_prefix hprefix (List.prefix_append _ rest) with hle | hle
      · exact congrArg some (h.apart _ hin _ hmem hle)
      · exact congrArg some (h.apart _ hmem _ hin hle).symm
  rw [List.cons_append] at hfind ⊢
  rw [decode, hfind]
  simp

/-- A byte at which no entity begins is read as it is. -/
theorem decode_cons (h : ∀ entity ∈ code, ¬ entity.1 <+: byte :: rest) :
    decode code (byte :: rest) = byte :: decode code rest := by
  have hfind : code.find? (fun entity => entity.1.isPrefixOf (byte :: rest)) = none :=
    List.find?_eq_none.mpr fun entity hmem hprefix =>
      h entity hmem (List.isPrefixOf_iff_prefix.mp hprefix)
  rw [decode, hfind]

/-- So are all bytes but the ampersand. -/
theorem decode_append (h : code.Readable) (hfront : ampersand ∉ front) (rest : List UInt8) :
    decode code (front ++ rest) = front ++ decode code rest := by
  induction front with
  | nil => rfl
  | cons byte front ih =>
    obtain ⟨hbyte, hfront⟩ := not_or.mp (fun hor => hfront (List.mem_cons.mpr hor))
    rw [List.cons_append, decode_cons, ih hfront, List.cons_append]
    intro entity hmem hprefix
    obtain ⟨tail, htext, -⟩ := h.exists_cons hmem
    rw [htext] at hprefix
    exact hbyte (List.cons_prefix_cons.mp hprefix).1

end

/-! ## 3. Text escaped for HTML -/

/-- The bytes with the three bytes of U+FFFD for each NUL. -/
def nulsReplaced (bytes : List UInt8) : List UInt8 :=
  bytes.flatMap fun byte => if byte = 0 then [0xEF, 0xBF, 0xBD] else [byte]

theorem nulsReplaced_eq_self {bytes : List UInt8} (h : 0 ∉ bytes) : nulsReplaced bytes = bytes := by
  induction bytes with
  | nil => rfl
  | cons byte bytes ih =>
    obtain ⟨hbyte, hbytes⟩ := not_or.mp (fun hor => h (List.mem_cons.mpr hor))
    rw [nulsReplaced, List.flatMap_cons, if_neg (Ne.symm hbyte)]
    exact congrArg (byte :: ·) (ih hbytes)

/-- For each byte there is an entity written, or three bytes for a NUL, or the byte itself. -/
theorem replaced_html (byte : UInt8) :
    (html.replaced byte, byte) ∈ htmlCode ∨
      byte = 0 ∧ html.replaced byte = [0xEF, 0xBF, 0xBD] ∨
      byte ≠ 0 ∧ html byte = none ∧ html.replaced byte = [byte] := by
  by_cases hnone : html byte = none
  · refine .inr (.inr ⟨?_, hnone, by rw [Table.replaced, hnone]⟩)
    rintro rfl
    cases hnone
  · have hspecial : byte ∈ [0x26, 0x3C, 0x3E, 0x22, 0x27, 0x00] := by
      by_contra hnot
      simp only [List.mem_cons, List.not_mem_nil, or_false, not_or] at hnot
      exact hnone (by simp [html, hnot])
    simp only [List.mem_cons, List.not_mem_nil, or_false] at hspecial
    rcases hspecial with rfl | rfl | rfl | rfl | rfl | rfl <;> decide +kernel

/-- What reads the entities finds the text again, but for the NULs. -/
theorem decode_escaped_html (bytes : List UInt8) :
    decode htmlCode (html.escaped bytes) = nulsReplaced bytes := by
  induction bytes with
  | nil => simp [decode, nulsReplaced]
  | cons byte bytes ih =>
    rw [Table.escaped_cons, nulsReplaced, List.flatMap_cons]
    rcases replaced_html byte with hentity | ⟨rfl, hnul⟩ | ⟨hne, hnone, hself⟩
    · rw [decode_entity readable_htmlCode hentity, ih, if_neg]
      · rfl
      · rintro rfl
        revert hentity
        decide +kernel
    · rw [hnul, decode_append readable_htmlCode (by decide +kernel), ih]
      rfl
    · have hamp : ampersand ∉ [byte] := by
        intro hmem
        obtain rfl := List.mem_singleton.mp hmem
        cases hnone
      rw [hself, decode_append readable_htmlCode hamp, ih, if_neg hne]
      rfl

/-- An ampersand that is written is the first byte of an entity. -/
theorem exists_entity_of_ampersand {bytes front back : List UInt8}
    (h : html.escaped bytes = front ++ ampersand :: back) :
    ∃ entity ∈ htmlCode, entity.1 <+: ampersand :: back := by
  induction bytes generalizing front with
  | nil => simp at h
  | cons byte bytes ih =>
    rw [Table.escaped_cons] at h
    rcases List.append_eq_append_iff.mp h with ⟨front', -, hrest⟩ | ⟨back', hbyte, hrest⟩
    · exact ih hrest
    · cases back' with
      | nil =>
        have hbehind : html.escaped bytes = [] ++ ampersand :: back := hrest.symm
        exact ih hbehind
      | cons first back' =>
        obtain ⟨rfl, rfl⟩ := List.cons.inj hrest
        rcases replaced_html byte with hentity | ⟨-, hnul⟩ | ⟨-, hnone, hself⟩
        · -- the entity holds one ampersand only, so nothing stands before it
          obtain ⟨tail, htext, htail⟩ := readable_htmlCode.exists_cons hentity
          cases front with
          | nil => exact ⟨_, hentity, hbyte ▸ List.prefix_append _ _⟩
          | cons first front =>
            rw [hbyte] at htext
            obtain ⟨-, rfl⟩ := List.cons.inj htext
            exact absurd (List.mem_append_right _ List.mem_cons_self) htail
        · have hmem : ampersand ∈ html.replaced byte :=
            hbyte ▸ List.mem_append_right _ List.mem_cons_self
          rw [hnul] at hmem
          exact absurd hmem (by decide +kernel)
        · have hmem : ampersand ∈ html.replaced byte :=
            hbyte ▸ List.mem_append_right _ List.mem_cons_self
          rw [hself] at hmem
          obtain rfl := List.mem_singleton.mp hmem
          cases hnone

/-- The bytes that may not stand in text that is escaped for HTML. -/
def forbidden : List UInt8 := ['<'.toUInt8, '>'.toUInt8, '"'.toUInt8, '\''.toUInt8, 0]

theorem not_forbidden_of_mem_escaped {bytes : List UInt8} {byte : UInt8}
    (h : byte ∈ html.escaped bytes) : byte ∉ forbidden := by
  obtain ⟨source, -, hmem⟩ := List.mem_flatMap.mp h
  rcases replaced_html source with hentity | ⟨-, hnul⟩ | ⟨hne, hnone, hself⟩
  · have hall : ∀ entity ∈ htmlCode, ∀ byte ∈ entity.1, byte ∉ forbidden := by decide +kernel
    exact hall _ hentity byte hmem
  · have hall : ∀ byte ∈ ([0xEF, 0xBF, 0xBD] : List UInt8), byte ∉ forbidden := by
      decide +kernel
    exact hall byte (hnul ▸ hmem)
  · rw [hself] at hmem
    obtain rfl := List.mem_singleton.mp hmem
    intro hin
    have hspecial : ∀ byte ∈ forbidden, html byte ≠ none := by decide +kernel
    exact hspecial _ hin hnone

/-! ## 4. Text with its double quotes replaced -/

theorem replaced_doubleQuote (byte : UInt8) :
    byte = '"'.toUInt8 ∧ doubleQuote.replaced byte = doubleQuoteEntity ∨
      byte ≠ '"'.toUInt8 ∧ doubleQuote.replaced byte = [byte] := by
  by_cases hquote : byte = '"'.toUInt8
  · subst hquote
    exact .inl ⟨rfl, rfl⟩
  · refine .inr ⟨hquote, ?_⟩
    have hnone : doubleQuote byte = none := if_neg hquote
    rw [Table.replaced, hnone]

/-- Where no ampersand is, nothing has been replaced. -/
theorem prefix_of_prefix_escaped {text bytes : List UInt8} (htext : ampersand ∉ text)
    (h : text <+: doubleQuote.escaped bytes) : text <+: bytes := by
  induction bytes generalizing text with
  | nil => exact h
  | cons byte bytes ih =>
    cases text with
    | nil => exact List.nil_prefix
    | cons first text =>
      obtain ⟨hfirst, htext⟩ := not_or.mp (fun hor => htext (List.mem_cons.mpr hor))
      rw [Table.escaped_cons] at h
      rcases replaced_doubleQuote byte with ⟨-, hentity⟩ | ⟨-, hself⟩
      · rw [hentity] at h
        exact absurd (List.cons_prefix_cons.mp h).1.symm hfirst
      · rw [hself, List.singleton_append] at h
        obtain ⟨rfl, hrest⟩ := List.cons_prefix_cons.mp h
        exact List.cons_prefix_cons.mpr ⟨rfl, ih htext hrest⟩

/-- What reads the entity of the double quote finds the text again, if the text has none itself. -/
theorem decode_escaped_doubleQuote {bytes : List UInt8} (h : ¬ doubleQuoteEntity <:+: bytes) :
    decode doubleQuoteCode (doubleQuote.escaped bytes) = bytes := by
  induction bytes with
  | nil => simp [decode]
  | cons byte bytes ih =>
    have hrest : ¬ doubleQuoteEntity <:+: bytes := fun hin => h (List.infix_cons hin)
    rw [Table.escaped_cons]
    rcases replaced_doubleQuote byte with ⟨rfl, hentity⟩ | ⟨-, hself⟩
    · rw [hentity, decode_entity readable_doubleQuoteCode List.mem_cons_self, ih hrest]
    · rw [hself, List.singleton_append, decode_cons, ih hrest]
      intro entity hmem hprefix
      obtain rfl := List.mem_singleton.mp hmem
      -- the entity would stand in the text, since it has no second ampersand
      obtain ⟨hfirst, htail⟩ := List.cons_prefix_cons.mp hprefix
      have hbytes := prefix_of_prefix_escaped (by decide +kernel) htail
      exact h (List.cons_prefix_cons.mpr ⟨hfirst, hbytes⟩).isInfix

theorem ne_doubleQuote_of_mem_escaped {bytes : List UInt8} {byte : UInt8}
    (h : byte ∈ doubleQuote.escaped bytes) : byte ≠ '"'.toUInt8 := by
  obtain ⟨source, -, hmem⟩ := List.mem_flatMap.mp h
  rcases replaced_doubleQuote source with ⟨-, hentity⟩ | ⟨hne, hself⟩
  · have hall : ∀ byte ∈ doubleQuoteEntity, byte ≠ '"'.toUInt8 := by decide +kernel
    exact hall byte (hentity ▸ hmem)
  · rw [hself] at hmem
    exact List.mem_singleton.mp hmem ▸ hne

/-! ## 5. The output -/

/-- What is added to the output for a text that is escaped for HTML. -/
structure EscapedText (out bytes : ByteArray) (added : List UInt8) : Prop where
  appended : (appendEscaped html out bytes).data.toList = out.data.toList ++ added
  permitted : ∀ byte ∈ added, byte ∉ forbidden
  ampersands : ∀ front back, added = front ++ ampersand :: back →
    ∃ entity ∈ htmlCode, entity.1 <+: ampersand :: back
  undone : decode htmlCode added = nulsReplaced bytes.data.toList

/-- What is added to the output for a text in which the double quotes are replaced. -/
structure UnquotedText (out bytes : ByteArray) (added : List UInt8) : Prop where
  appended : (appendEscaped doubleQuote out bytes).data.toList = out.data.toList ++ added
  permitted : ∀ byte ∈ added, byte ≠ '"'.toUInt8
  undone : ¬ doubleQuoteEntity <:+: bytes.data.toList →
    decode doubleQuoteCode added = bytes.data.toList

/-- Both ways to escape can be undone. Escaping for HTML keeps texts without NULs apart. -/
theorem escaping_undone (out : ByteArray) :
    (∀ bytes, ∃ added, EscapedText out bytes added) ∧
      (∀ bytes bytes' : ByteArray, 0 ∉ bytes.data.toList → 0 ∉ bytes'.data.toList →
        appendEscaped html out bytes = appendEscaped html out bytes' → bytes = bytes') ∧
      ∀ bytes, ∃ added, UnquotedText out bytes added := by
  refine ⟨fun bytes => ?_, fun bytes bytes' hnul hnul' heq => ?_, fun bytes => ?_⟩
  · exact ⟨html.escaped bytes.data.toList, appendEscaped_eq html out bytes,
      fun _ => not_forbidden_of_mem_escaped, fun _ _ => exists_entity_of_ampersand,
      decode_escaped_html _⟩
  · have happended := congrArg (fun output : ByteArray => output.data.toList) heq
    simp only [appendEscaped_eq] at happended
    have hdecoded := congrArg (decode htmlCode) (List.append_cancel_left happended)
    rw [decode_escaped_html, decode_escaped_html, nulsReplaced_eq_self hnul,
      nulsReplaced_eq_self hnul'] at hdecoded
    exact ByteArray.ext (Array.toList_inj.mp hdecoded)
  · exact ⟨doubleQuote.escaped bytes.data.toList, appendEscaped_eq doubleQuote out bytes,
      fun _ => ne_doubleQuote_of_mem_escaped, decode_escaped_doubleQuote⟩

end HtmlTemplate.Entity
