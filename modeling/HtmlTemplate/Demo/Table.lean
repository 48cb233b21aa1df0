import HtmlTemplate.Rendering.Walk
import HtmlTemplate.Template.Assembly

/-!
# A page with a big table

The page is for measuring how fast rendering is. Its table has one row for each
number from 100 to 24999. A row shows the counter of the page, the sum of the
number and the counter, and whether a light is on.
-/

namespace HtmlTemplate.Demo

variable {ω : Type}

/-- The sum, or a fault if it leaves the range. -/
def addInRange (a b : Int64) : Render ω Int64 :=
  let sum := a.toInt + b.toInt
  if Int64.minValue.toInt ≤ sum ∧ sum ≤ Int64.maxValue.toInt then pure (Int64.ofInt sum)
  else throw .overflow

/-- A row of the table. -/
structure Row where
  counter : Int64
  number : Int64

/-- The first number of the table. -/
def firstNumber : Nat := 100

/-- The number of rows. -/
def rowCount : Nat := 24900

/-- Whether the light in the row with this number is on. -/
def isOn (number : Int64) : Bool := (Float.ofInt number.toInt * 0.1).sin > 0.432

/-- The template of a row. -/
def rowTemplate : Except TemplateError (Component ω Row) :=
  Component.compile "<tr><td>$\x7btd0\x7d</td><td>$\x7btd1\x7d</td></tr>"
    [.plain "td0" fun row => do
       Render.writeInt row.counter.toInt
       Render.write "abc",
     .plain "td1" fun row => do
       let onOff := if isOn row.number then "on" else "off"
       let sum ← addInRange row.number row.counter
       Render.write (toString sum.toInt ++ " - " ++ onOff)]

/-- The numbers of the table in order. -/
def numbers : List Int64 := (List.range' firstNumber rowCount).map fun n => Int64.ofNat n

/-- The template of the page, given that of a row. -/
def pageTemplate (row : Component ω Row) : Except TemplateError (Component ω Int64) :=
  Component.compile
    ("<html><head><title>Test page</title></head><body><p>Hello world!</p>" ++
      "<p>Counter: $\x7bcounter\x7d</p><table>$\x7brows\x7d</table></body></html>")
    [.plain "counter" fun counter => Render.writeInt counter.toInt,
     .plain "rows" fun counter =>
       numbers.forM fun number => row.render { counter := counter, number := number }]

/-- The page with the big table. -/
structure TablePage (ω : Type) where
  page : Component ω Int64

namespace TablePage

/-- The page with its templates compiled. -/
def build : Except TemplateError (TablePage ω) := do
  return { page := ← pageTemplate (← rowTemplate) }

/-- Renders the page for a counter. -/
def render (t : TablePage ω) (counter : Int64) : Render ω Unit := t.page.render counter

end TablePage

end HtmlTemplate.Demo
