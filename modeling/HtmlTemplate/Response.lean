import HtmlTemplate.Text.Entity

/-!
# Responses

A `Response` is what a request is answered with: the bytes written so far, the
status, the target of a redirect, and whether the response is halted. All
writes to a halted response do nothing. The status and the target can still be
changed.
-/

namespace HtmlTemplate

structure Response where
  output : ByteArray := .empty
  status : UInt16 := 200
  /-- The target of a redirect. -/
  location : Option String := none
  /-- No further output is produced and no further callback is run. -/
  halted : Bool := false

namespace Response

/-- The number of bytes written. -/
def size (r : Response) : Nat := r.output.size

/-! ## 1. Text -/

/-- Writes bytes as they are. -/
def writeRawBytes (r : Response) (bytes : ByteArray) : Response :=
  if r.halted then r else { r with output := r.output ++ bytes }

/-- Writes bytes escaped for HTML. -/
def writeBytes (r : Response) (bytes : ByteArray) : Response :=
  if r.halted then r else { r with output := Entity.appendEscaped Entity.html r.output bytes }

/-- Writes HTML as it is. -/
def writeRaw (r : Response) (html : String) : Response := r.writeRawBytes html.toUTF8

/-- Writes text escaped for HTML. -/
def write (r : Response) (text : String) : Response := r.writeBytes text.toUTF8

/-- Takes back all output after the first `size` bytes. -/
def truncate (r : Response) (size : Nat) : Response :=
  { r with output := r.output.extract 0 size }

/-! ## 2. Attributes -/

/-- Writes a blank and the key of an attribute. An empty key is written as `_`. -/
def writeKey (r : Response) (key : String) (escaped : Bool) : Response :=
  let r := r.writeRaw " "
  if key.isEmpty then r.writeRaw "_"
  else if escaped then r.write key
  else r.writeRaw key

/-- Writes an attribute, key and value escaped. -/
def addAttribute (r : Response) (key value : String) : Response :=
  (((r.writeKey key true).writeRaw "=\"").write value).writeRaw "\""

/-- Writes an attribute as it is, but for double quotes in the value. -/
def addRawAttribute (r : Response) (key value : String) : Response :=
  let r := (r.writeKey key false).writeRaw "=\""
  let r :=
    if r.halted then r
    else { r with output := Entity.appendEscaped Entity.doubleQuote r.output value.toUTF8 }
  r.writeRaw "\""

/-- Writes an attribute without a value, the key escaped. -/
def addFlag (r : Response) (key : String) : Response := r.writeKey key true

/-! ## 3. Status -/

/-- Stops all further output. -/
def halt (r : Response) : Response := { r with halted := true }

def setStatus (r : Response) (status : UInt16) : Response := { r with status := status }

/-- Answers with a redirect in place of the output. -/
def redirect (r : Response) (status : UInt16) (target : String) : Response :=
  { r with status := status, location := some target, halted := true }

/-- Redirects for good. -/
def redirectPermanently (r : Response) (target : String) : Response := r.redirect 301 target

/-- Redirects to a page that is to be fetched with GET. -/
def redirectToGet (r : Response) (target : String) : Response := r.redirect 303 target

/-- Redirects for now. -/
def redirectTemporarily (r : Response) (target : String) : Response := r.redirect 307 target

/-- Gives the request up as one that cannot be served now. -/
def giveUp (r : Response) : Response := { r with status := 503, halted := true }

end Response

end HtmlTemplate
