import HtmlTemplate.Demo.Table
import HtmlTemplate.Proofs.Demo.Pages

/-!
# The rows of the big table

The sum in a row is the only thing on the page with the big table that can go wrong. The numbers of
the rows are small and positive, so a sum can only get too big, and the last row gets there first.
A row is therefore an equation between computations while its sum fits, and a fault otherwise; the
rows together are the texts of the rows, or the fault of the first row that does not fit.

Results:
1. `Render.writeDecimal_eq_writeRaw`: numbers of either sign are markup.
2. `forM_eq_writeRaw`, `forM_of_fault`: texts one after the other, up to the first fault.
3. `render_row`, `render_row_of_overflow`: a row.
4. `render_page`, `render_page_of_overflow`: the page.
5. `bigTable_exact`: for which counters the page is written, and what is written.
-/

namespace HtmlTemplate

open Render

variable {ω α : Type}

/-! ## 1. Numbers as markup -/

theorem sourceBytes_append (front back : String) :
    sourceBytes (front ++ back) = sourceBytes front ++ sourceBytes back := by
  simp [sourceBytes, String.toUTF8, ByteArray.data_append]

theorem Entity.Table.Plain.append {table : Entity.Table} {front back : List UInt8}
    (hfront : table.Plain front) (hback : table.Plain back) : table.Plain (front ++ back) :=
  fun byte hbyte => (List.mem_append.mp hbyte).elim (hfront byte) (hback byte)

/-- There is nothing to escape in a decimal number with a sign. -/
theorem plain_toString_int (n : Int) : Entity.html.Plain (sourceBytes (toString n)) := by
  have hminus : Entity.html.Plain (sourceBytes "-") := by unfold Entity.Table.Plain; decide +kernel
  cases n with
  | ofNat n => exact plain_toString n
  | negSucc n =>
    show Entity.html.Plain (sourceBytes ("-" ++ toString (n + 1)))
    rw [sourceBytes_append]
    exact hminus.append (plain_toString (n + 1))

theorem Render.writeDecimal_eq_writeRaw (n : Int) :
    (Render.writeInt n : Render ω Unit) = Render.writeRaw (toString n) :=
  (write_eq_writeRaw (toString n)).trans (congrArg _ (escaped_of_plain (plain_toString_int n)))

/-! ## 2. Texts one after the other -/

theorem forM_eq_writeRaw {items : List α} {x : α → Render ω Unit} {text : α → String}
    (h : ∀ a ∈ items, x a = Render.writeRaw (text a)) :
    items.forM x = Render.writeRaw (String.join (items.map text)) := by
  induction items with
  | nil => exact writeRaw_empty.symm
  | cons a items ih =>
    show (do x a; items.forM x) = _
    rw [h a List.mem_cons_self, ih fun b hb => h b (List.mem_cons_of_mem a hb), List.map_cons,
      String.join_cons, writeRaw_append]

/-- If some item does not fit, the first of them ends the run with its fault. -/
theorem forM_of_fault {items : List α} {x : α → Render ω Unit} {text : α → String} {e : Fault}
    {Fits : α → Prop} (hfits : ∀ a ∈ items, Fits a → x a = Render.writeRaw (text a))
    (hfault : ∀ a ∈ items, ¬ Fits a → ∀ s : Session ω, s.response.halted = false → x a s = .error e)
    (h : ∃ a ∈ items, ¬ Fits a) {s : Session ω} (hs : s.response.halted = false) :
    items.forM x s = .error e := by
  induction items generalizing s with
  | nil =>
    obtain ⟨a, hmem, -⟩ := h
    cases hmem
  | cons a items ih =>
    show (do x a; items.forM x) s = _
    by_cases ha : Fits a
    · -- The row is written, the response is still running, and the row that does not fit follows.
      obtain ⟨b, hmem, hb⟩ := h
      rw [hfits a List.mem_cons_self ha]
      refine (bind_of_ok rfl).trans (ih (fun b hb => hfits b (List.mem_cons_of_mem a hb))
        (fun b hb => hfault b (List.mem_cons_of_mem a hb)) ⟨b, ?_, hb⟩ ?_)
      · exact (List.mem_cons.mp hmem).resolve_left fun hba => hb (hba ▸ ha)
      · exact (Response.halted_writeRawBytes _ _).trans hs
    · exact bind_of_error (hfault a List.mem_cons_self ha s hs)

theorem Declaration.keepsElement_plain (name : String) (run : α → Render ω Unit) :
    (Declaration.plain name run).KeepsElement := by
  intro attributes hrun
  cases hrun

namespace Demo

/-! ## 3. A row -/

/-- The word for the light in a row. -/
def lightText (number : Nat) : String := if isOn (Int64.ofNat number) then "on" else "off"

theorem plain_lightText (number : Nat) : Entity.html.Plain (sourceBytes (lightText number)) := by
  unfold lightText Entity.Table.Plain
  split <;> decide +kernel

/-- What the row with a number shows for a counter. -/
def rowText (counter : Int) (number : Nat) : String :=
  "<tr><td>" ++ toString counter ++ "abc</td><td>" ++ toString (number + counter) ++ " - " ++
  lightText number ++ "</td></tr>"

/-- The sum of the number and the counter is not too big for 64 bits. -/
def SumFits (counter : Int64) (number : Nat) : Prop :=
  number + counter.toInt ≤ Int64.maxValue.toInt

variable {counter : Int64} {number : Nat}

/-- The sum of a counter and a number that is not negative cannot get too small. -/
theorem minValue_le_sum (counter : Int64) (number : Nat) :
    Int64.minValue.toInt ≤ number + counter.toInt :=
  Int.le_trans (Int64.minValue_le_toInt counter)
    (Int.le_add_of_nonneg_left (Int.natCast_nonneg number))

theorem addInRange_of_fits (hnumber : number < 2 ^ 63) (hfits : SumFits counter number) :
    (addInRange (Int64.ofNat number) counter : Render ω Int64) =
      pure (Int64.ofInt (number + counter.toInt)) := by
  rw [addInRange, Int64.toInt_ofNat_of_lt hnumber]
  exact if_pos ⟨minValue_le_sum counter number, hfits⟩

theorem addInRange_of_not_fits (hnumber : number < 2 ^ 63) (hfits : ¬ SumFits counter number) :
    (addInRange (Int64.ofNat number) counter : Render ω Int64) = throw .overflow := by
  rw [addInRange, Int64.toInt_ofNat_of_lt hnumber]
  exact if_neg fun hrange => hfits hrange.2

theorem toInt_sum (hfits : SumFits counter number) :
    (Int64.ofInt (number + counter.toInt)).toInt = number + counter.toInt := by
  have hmin := minValue_le_sum counter number
  rw [SumFits, Int64.toInt_maxValue] at hfits
  rw [Int64.toInt_minValue] at hmin
  exact Int64.toInt_ofInt_of_le hmin (Int.lt_of_le_sub_one hfits)

theorem row_outline : ∃ source declarations o,
    (rowTemplate : Except TemplateError (Component ω Row)) =
      Component.compile source declarations ∧
    (∀ d ∈ declarations, d.KeepsElement) ∧
    Outline.ofSource? source declarations = some o ∧
    ∀ row : Row, o.eval row =
      (do
        Render.writeRaw ("<tr><td>" ++ toString row.counter.toInt ++ "abc</td><td>")
        unlessHalted do
          let sum ← addInRange row.number row.counter
          Render.write (toString sum.toInt ++ " - " ++ if isOn row.number then "on" else "off")
        Render.writeRaw "</td></tr>") := by
  have hfirst : Token.IsName "td0".toList := by decide +kernel
  have hsecond : Token.IsName "td1".toList := by decide +kernel
  have hword : escaped "abc" = "abc" := by decide +kernel
  have hjoin : "abc</td><td>" = "abc" ++ "</td><td>" := by decide +kernel
  refine ⟨_, _, _, rfl, ?_, Outline.Reads.ofSource?
    (.text "<tr><td>" (by decide +kernel) <|
    .plain hfirst rfl <|
    .text "</td><td>" (by decide +kernel) <|
    .plain hsecond rfl <|
    .text "</td></tr>" (by decide +kernel) <|
    .nil)
    (by dsimp only [Declaration.plain]; decide +kernel), fun row => ?_⟩
  · simp only [List.forall_mem_cons]
    exact ⟨Declaration.keepsElement_plain _ _, Declaration.keepsElement_plain _ _,
      List.forall_mem_nil _⟩
  · simp only [Outline.eval_chars, Outline.eval, Declaration.staticHtml, Declaration.plain,
      Option.getD, writeRaw_empty, pure_bind, bind_pure_unit]
    rw [writeDecimal_eq_writeRaw, write_eq_writeRaw "abc", hword, hjoin, ← writeRaw_append,
      unlessHalted_writeRaw]
    simp only [writeRaw_append, bind_assoc]

section Row

variable {row : Component ω Row} (h : rowTemplate = .ok row)
include h

theorem render_row_eq (counter number : Int64) :
    row.render { counter := counter, number := number } =
      (do
        Render.writeRaw ("<tr><td>" ++ toString counter.toInt ++ "abc</td><td>")
        unlessHalted do
          let sum ← addInRange number counter
          Render.write (toString sum.toInt ++ " - " ++ if isOn number then "on" else "off")
        Render.writeRaw "</td></tr>") := by
  obtain ⟨source, declarations, o, htemplate, hkeep, ho, heval⟩ := row_outline (ω := ω)
  rw [htemplate] at h
  rw [Component.render_of_ofSource? h hkeep ho, heval]

theorem render_row (hnumber : number < 2 ^ 63) (hfits : SumFits counter number) :
    row.render { counter := counter, number := Int64.ofNat number } =
      Render.writeRaw (rowText counter.toInt number) := by
  have hplain : Entity.html.Plain (sourceBytes
      (toString (number + counter.toInt) ++ " - " ++ lightText number)) := by
    have hdash : Entity.html.Plain (sourceBytes " - ") := by
      unfold Entity.Table.Plain
      decide +kernel
    rw [sourceBytes_append, sourceBytes_append]
    exact ((plain_toString_int _).append hdash).append (plain_lightText number)
  rw [render_row_eq h, addInRange_of_fits hnumber hfits, pure_bind, toInt_sum hfits,
    ← lightText, write_eq_writeRaw, escaped_of_plain hplain, unlessHalted_writeRaw]
  delta rowText
  simp only [writeRaw_append, bind_assoc]

theorem render_row_of_overflow (hnumber : number < 2 ^ 63) (hfits : ¬ SumFits counter number)
    {s : Session ω} (hs : s.response.halted = false) :
    row.render { counter := counter, number := Int64.ofNat number } s = .error .overflow := by
  rw [render_row_eq h, addInRange_of_not_fits hnumber hfits]
  refine (bind_of_ok rfl).trans (bind_of_error ?_)
  exact unlessHalted_of_running _ ((Response.halted_writeRawBytes _ _).trans hs)

end Row

/-! ## 4. The page -/

/-- The rows of the table for a counter. -/
def rowTexts (counter : Int) : List String := (List.range' 100 24900).map (rowText counter)

/-- The page with the big table for a counter. -/
def tablePage (counter : Int) : String :=
  "<html><head><title>Test page</title></head><body><p>Hello world!</p><p>Counter: " ++
  toString counter ++ "</p><table>" ++ String.join (rowTexts counter) ++ "</table></body></html>"

theorem page_outline (row : Component ω Row) : ∃ source declarations o,
    pageTemplate row = Component.compile source declarations ∧
    (∀ d ∈ declarations, d.KeepsElement) ∧
    Outline.ofSource? source declarations = some o ∧
    ∀ counter : Int64, o.eval counter =
      (do
        Render.writeRaw
          ("<html><head><title>Test page</title></head><body><p>Hello world!</p><p>Counter: " ++
            toString counter.toInt ++ "</p><table>")
        unlessHalted (numbers.forM fun number =>
          row.render { counter := counter, number := number })
        Render.writeRaw "</table></body></html>") := by
  have hfirst : Token.IsName "counter".toList := by decide +kernel
  have hsecond : Token.IsName "rows".toList := by decide +kernel
  refine ⟨_, _, _, rfl, ?_, Outline.Reads.ofSource?
    (.text "<html><head><title>Test page</title></head><body><p>Hello world!</p><p>Counter: "
      (by decide +kernel) <|
    .plain hfirst rfl <|
    .text "</p><table>" (by decide +kernel) <|
    .plain hsecond rfl <|
    .text "</table></body></html>" (by decide +kernel) <|
    .nil)
    (by dsimp only [Declaration.plain]; decide +kernel), fun counter => ?_⟩
  · simp only [List.forall_mem_cons]
    exact ⟨Declaration.keepsElement_plain _ _, Declaration.keepsElement_plain _ _,
      List.forall_mem_nil _⟩
  · simp only [Outline.eval_chars, Outline.eval, Declaration.staticHtml, Declaration.plain,
      Option.getD, writeRaw_empty, pure_bind, bind_pure_unit]
    rw [writeDecimal_eq_writeRaw, unlessHalted_writeRaw]
    simp only [writeRaw_append, bind_assoc]

theorem numbers_forM (x : Int64 → Render ω Unit) :
    numbers.forM x = (List.range' 100 24900).forM fun number => x (Int64.ofNat number) :=
  List.forM_map

/-- The last row has the greatest sum. -/
theorem forall_sumFits_iff : (∀ number ∈ List.range' 100 24900, SumFits counter number) ↔
    counter.toInt ≤ Int64.maxValue.toInt - 24999 := by
  constructor
  · intro hfits
    have hlast : ((24999 : Nat) : Int) + counter.toInt ≤ Int64.maxValue.toInt :=
      hfits 24999 (List.mem_range'_1.mpr (by decide))
    omega
  · intro hcounter number hmem
    have hnumber := List.mem_range'_1.mp hmem
    unfold SumFits
    omega

theorem lt_of_mem_numbers {number : Nat} (h : number ∈ List.range' 100 24900) :
    number < 2 ^ 63 :=
  Nat.lt_trans (List.mem_range'_1.mp h).2 (by decide)

/-- The session after a text has been added to the output. -/
def afterText (s : Session ω) (html : String) : Session ω :=
  { s with response := { s.response with output := s.response.output ++ html.toUTF8 } }

section Page

variable {row : Component ω Row} {page : Component ω Int64} (hrow : rowTemplate = .ok row)
  (hpage : pageTemplate row = .ok page)
include hpage

theorem render_page_eq (counter : Int64) :
    page.render counter =
      (do
        Render.writeRaw
          ("<html><head><title>Test page</title></head><body><p>Hello world!</p><p>Counter: " ++
            toString counter.toInt ++ "</p><table>")
        unlessHalted ((List.range' 100 24900).forM fun number =>
          row.render { counter := counter, number := Int64.ofNat number })
        Render.writeRaw "</table></body></html>") := by
  obtain ⟨source, declarations, o, htemplate, hkeep, ho, heval⟩ := page_outline row
  rw [htemplate] at hpage
  rw [Component.render_of_ofSource? hpage hkeep ho, heval, numbers_forM]

include hrow

theorem render_page (hcounter : counter.toInt ≤ Int64.maxValue.toInt - 24999) :
    page.render counter = Render.writeRaw (tablePage counter.toInt) := by
  have hrows := forM_eq_writeRaw fun number hmem =>
    render_row hrow (lt_of_mem_numbers hmem) (forall_sumFits_iff.mpr hcounter number hmem)
  rw [render_page_eq hpage, hrows, unlessHalted_writeRaw]
  delta tablePage rowTexts
  simp only [writeRaw_append, bind_assoc]

theorem render_page_of_overflow (hcounter : ¬ counter.toInt ≤ Int64.maxValue.toInt - 24999)
    {s : Session ω} (hs : s.response.halted = false) :
    page.render counter s = .error .overflow := by
  have hsum : ∃ number ∈ List.range' 100 24900, ¬ SumFits counter number := by
    by_contra hall
    push Not at hall
    exact hcounter (forall_sumFits_iff.mp hall)
  have hfront : ∀ html : String, (s.response.writeRaw html).halted = false := fun html =>
    (Response.halted_writeRawBytes _ _).trans hs
  rw [render_page_eq hpage]
  refine (bind_of_ok rfl).trans (bind_of_error ?_)
  refine (unlessHalted_of_running _ (hfront _)).trans ?_
  exact forM_of_fault (fun number hmem => render_row hrow (lt_of_mem_numbers hmem))
    (fun number hmem hfits s => render_row_of_overflow hrow (lt_of_mem_numbers hmem) hfits)
    hsum (hfront _)

end Page

theorem writeRaw_of_running {s : Session ω} (hs : s.response.halted = false) (html : String) :
    Render.writeRaw html s = .ok ((), afterText s html) := by
  show Except.ok ((), { s with response := s.response.writeRaw html }) = _
  simp [afterText, Response.writeRaw, Response.writeRawBytes, hs]

theorem templates_of_build {t : TablePage ω} (h : TablePage.build = .ok t) :
    ∃ row, rowTemplate = .ok row ∧ pageTemplate row = .ok t.page := by
  obtain ⟨row, hrow, h⟩ := exists_ok_of_bind h
  obtain ⟨page, hpage, h⟩ := exists_ok_of_bind h
  cases h
  exact ⟨row, hrow, hpage⟩

/-- The page with the big table compiles. For a counter that leaves room for the sum in the last row
it is added to the output, with all its rows in order. For any greater counter the addition
overflows, and nothing else ever goes wrong. -/
theorem bigTable_exact : ∃ t : TablePage Counters, TablePage.build = .ok t ∧
    ∀ (counter : Int64) (s : Session Counters), s.response.halted = false →
      (t.render counter s = .error .overflow ↔ Int64.maxValue.toInt - 24999 < counter.toInt) ∧
      (counter.toInt ≤ Int64.maxValue.toInt - 24999 →
        t.render counter s = .ok ((), afterText s (tablePage counter.toInt))) := by
  obtain ⟨t, ht⟩ := exists_eq_ok (x := TablePage.build (ω := Counters)) (by decide +kernel)
  obtain ⟨row, hrow, hpage⟩ := templates_of_build ht
  refine ⟨t, ht, fun counter s hs => ?_⟩
  have hwritten : counter.toInt ≤ Int64.maxValue.toInt - 24999 →
      t.render counter s = .ok ((), afterText s (tablePage counter.toInt)) := fun hcounter =>
    (congrFun (render_page hrow hpage hcounter) s).trans (writeRaw_of_running hs _)
  refine ⟨⟨fun hfault => ?_, fun hcounter => ?_⟩, hwritten⟩
  · by_contra hcounter
    rw [hwritten (Int.not_lt.mp hcounter)] at hfault
    cases hfault
  · exact render_page_of_overflow hrow hpage (Int.not_le.mpr hcounter) hs

/-- A negative counter on a response that has some output, and the first counter that is too
great. -/
theorem bigTable_exact_of_negative : ∃ t : TablePage Counters, TablePage.build = .ok t ∧
    (let s : Session Counters := { response := written "<!-- -->", world := {} }
     t.render (-200) s = .ok ((), afterText s (tablePage (-200))) ∧
       t.render (Int64.maxValue - 24998) s = .error .overflow) := by
  obtain ⟨t, ht, hexact⟩ := bigTable_exact
  exact ⟨t, ht, (hexact (-200) _ rfl).2 (by decide), (hexact _ _ rfl).1.mpr (by decide)⟩

/-- The first row for the counter 7. -/
example : rowText 7 100 = "<tr><td>7abc</td><td>107 - " ++ lightText 100 ++ "</td></tr>" := by
  rfl

end Demo

end HtmlTemplate
