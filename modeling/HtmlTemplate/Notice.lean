import HtmlTemplate.Text.Quoted

/-!
# Notices

Lines for the operator: warnings, traces of requests and timings. Each kind can
be switched on and off. A line has a tag, a message and the place in the program
that it comes from, and for traces and timings the thread.
-/

namespace HtmlTemplate

/-- A thread, numbered from one. -/
structure ThreadId where
  number : Nat
  deriving DecidableEq, Repr

/-- The text of a thread. -/
def ThreadId.text (t : ThreadId) : String := "ThreadId(" ++ toString t.number ++ ")"

/-- What a notice says. -/
structure Notice where
  tag : String
  thread? : Option ThreadId := none
  message : String
  deriving DecidableEq, Repr

namespace Notice

/-- The notice without the place that it comes from. -/
def text (n : Notice) : String :=
  ((n.thread?.map fun t => t.text ++ " ").getD "") ++ n.tag ++ ": " ++ n.message

/-- The whole line. -/
def line (n : Notice) (file : String) (lineNumber : Nat) : String :=
  n.text ++ " at " ++ Text.quoted file ++ " line " ++ toString lineNumber ++ "\n"

/-- A warning. -/
def warning (message : String) : Notice := { tag := "W", message := message }

/-- The trace of a request in a thread. -/
def trace (thread : ThreadId) (message : String) : Notice :=
  { tag := "W", thread? := some thread, message := message }

/-- The warning that a request is given up. -/
def givingUp (reason : String) : Notice := warning ("sending 503: " ++ reason)

/-- The notice that the part of a program called `name` took the time `elapsed`. -/
def timing (thread : ThreadId) (name elapsed : String) : Notice :=
  { tag := "T", thread? := some thread, message := Text.quoted name ++ ": " ++ elapsed }

end Notice

/-- Which notices are printed. -/
structure NoticeSwitches where
  warnings : Bool := true
  traces : Bool := false
  timings : Bool := false
  deriving DecidableEq, Repr

namespace NoticeSwitches

/-- Whether this value of the variable `TIME_GUARD` switches timings on. -/
def timingsFrom (value? : Option String) : Bool :=
  match value? with
  | none => false
  | some value => value ∉ ["0", "", "off", "false", "no"]

end NoticeSwitches

end HtmlTemplate
