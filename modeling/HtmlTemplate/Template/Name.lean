import HtmlTemplate.Text.Quoted

/-!
# Names in messages

Messages show a name quoted and with its storage: a name of at most fifteen
bytes is stored inline, a longer one is owned. A text that was never given is
the one shared empty text.
-/

namespace HtmlTemplate.Name

/-- The greatest number of bytes that are stored inline. -/
def inlineLimit : Nat := 15

/-- The form of a name in messages. -/
def shown (name : String) : String :=
  (if name.utf8ByteSize ≤ inlineLimit then "Inline(" else "Owned(") ++ Text.quoted name ++ ")"

/-- The form of a text in messages that need not be given. -/
def shownOptional : Option String → String
  | none => "Singleton(" ++ Text.quoted "" ++ ")"
  | some text => shown text

end HtmlTemplate.Name
