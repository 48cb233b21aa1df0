import HtmlTemplate.Rendering.Session

/-!
# HTTP replies

A finished response is sent as a `Reply`. A redirect has a `Location` and no
body. A halted response with an error status is sent as an error page. In all
other cases the output is the body.
-/

namespace HtmlTemplate

structure Reply where
  status : UInt16
  headers : List (String × String)
  body : ByteArray

/-- The title of a status. -/
def statusTitle (status : UInt16) : String :=
  if status = 200 then "OK"
  else if status = 301 then "Moved Permanently"
  else if status = 302 then "Found"
  else if status = 303 then "See Other"
  else if status = 307 then "Temporary Redirect"
  else if status = 308 then "Permanent Redirect"
  else if status = 400 then "Bad Request"
  else if status = 403 then "Forbidden"
  else if status = 404 then "Not Found"
  else if status = 500 then "Internal Server Error"
  else if status = 503 then "Service Unavailable"
  else "Error"

namespace Reply

/-- The header of HTML. -/
def htmlHeader : String × String := ("Content-Type", "text/html; charset=utf-8")

/-- The page that is sent for a status instead of output. -/
def errorPage (status : UInt16) : Reply :=
  let title := (Entity.escapeHtml (statusTitle status)).text
  { status := status
    headers := [htmlHeader]
    body :=
      ("<html><head><title>" ++ title ++ "</title></head><body><h1>" ++ title ++
        "</h1></body></html>\n").toUTF8 }

/-- The reply for a finished response. -/
def ofResponse (r : Response) : Reply :=
  match r.location with
  | some target =>
    { status := r.status, headers := [("Location", target)], body := .empty }
  | none =>
    if r.halted ∧ 400 ≤ r.status then errorPage r.status
    else { status := r.status, headers := [htmlHeader], body := r.output }

/-- The reply as it is sent: the status line, the headers and the body. -/
def wire (r : Reply) : ByteArray :=
  let line := "HTTP/1.1 " ++ toString r.status.toNat ++ " " ++ statusTitle r.status ++ "\r\n"
  let headers := r.headers ++ [("Content-Length", toString r.body.size)]
  let headerText := headers.map fun (key, value) => key ++ ": " ++ value ++ "\r\n"
  (line ++ String.join headerText ++ "\r\n").toUTF8 ++ r.body

/-- Renders a page: the reply, and the session afterwards. -/
def ofPage {ω : Type} (session : Session ω) (page : Render ω Unit) :
    Except Fault (Reply × Session ω) := do
  let (_, session) ← page.run session
  return (ofResponse session.response, session)

end Reply

end HtmlTemplate
