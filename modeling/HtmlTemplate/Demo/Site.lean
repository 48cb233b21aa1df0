import HtmlTemplate.Demo.Table
import HtmlTemplate.Http.Query
import HtmlTemplate.Http.Reply

/-!
# The demo site

A layout around a few pages. The layout shows a link for users who are logged in
and counts how often it has been rendered. The page for administrators sends
everyone else away.
-/

namespace HtmlTemplate.Demo

variable {ω : Type}

/-- What the site counts. -/
structure Counters where
  /-- How often the layout has been rendered up to its foot. -/
  pages : UInt64 := 0
  /-- How often the page with the big table has been rendered. -/
  tables : Int64 := 0

/-- What a page of the site is rendered with. -/
structure PageData where
  title : String
  path : String
  /-- The user who is logged in. -/
  user : Option String

/-- The next number, or a fault if it leaves the range. -/
def nextInRange (n : UInt64) : Render ω UInt64 :=
  if n.toNat + 1 < UInt64.size then pure (n + 1) else throw .overflow

/-- Counts a page and gives its number. -/
def countPage : Render Counters UInt64 := do
  let number ← nextInRange (← get).world.pages
  Render.modifyWorld fun counters => { counters with pages := number }
  return number

/-- Counts a rendering of the big table and gives its number. -/
def countTable : Render Counters Int64 := do
  let number ← addInRange (← get).world.tables 1
  Render.modifyWorld fun counters => { counters with tables := number }
  return number

/-- Writes the name of the user, if there is one. -/
def writeUser (before : String) (data : PageData) : Render Counters Unit :=
  match data.user with
  | some user => do
    Render.write before
    Render.write user
  | none => pure ()

def layoutSource : String :=
  "<!DOCTYPE html>\n" ++
  "<html><head><meta charset=\"utf-8\"><title>$\x7btitle\x7d</title></head>\n" ++
  "<body $\x7bbody\x7d><nav><a $\x7bhome\x7d href=\"/\">Home</a> " ++
  "<a href=\"/bench\">Benchmark</a>$\x7b\x7badmin\x7d " ++
  "<a href=\"/admin\">Admin ($\x7buser\x7d)</a>\x7d\x7d</nav>\n" ++
  "<main>$\x7b\x7d</main>\n" ++
  "<footer>$\x7brenders\x7d pages rendered</footer></body></html>\n"

/-- The markers of the layout. -/
def layoutDeclarations : List (Declaration Counters PageData) :=
  [.plain "title" fun data => Render.write data.title,
   .attributes "body" fun data => do
     if data.user.isSome then AttributeRender.addAttribute "class" "logged-in",
   .attributes "home" fun data => do
     if data.path = "/" then AttributeRender.addAttribute "aria-current" "page",
   .wrapper "admin" fun data => do
     if data.user.isNone then WrapperRender.skipContent,
   .plain "user" (writeUser ""),
   .plain "renders" fun _ => do Render.writeInt (← countPage).toNat]

/-- The layout of the pages. -/
def layout : Except TemplateError (Wrapper Counters PageData) :=
  Wrapper.compile layoutSource layoutDeclarations

def homeSource : String :=
  "<h1>Welcome$\x7bname\x7d</h1>" ++
  "<p>This page is put together from marker templates.</p>"

def homeDeclarations : List (Declaration Counters PageData) :=
  [.plain "name" (writeUser ", ")]

/-- The content of the home page. -/
def homeContent : Except TemplateError (Component Counters PageData) :=
  Component.compile homeSource homeDeclarations

def adminSource : String := "<h1>Admin</h1><p>Logged in as $\x7buser\x7d.</p>"

/-- Whoever is not logged in is sent home; what has been written is not sent then. -/
def adminDeclarations : List (Declaration Counters PageData) :=
  [.plain "user" fun data =>
     match data.user with
     | some user => Render.write user
     | none => Render.redirect 307 "/"]

/-- The content of the page for administrators. -/
def adminContent : Except TemplateError (Component Counters PageData) :=
  Component.compile adminSource adminDeclarations

/-- The site with its templates compiled. -/
structure Site where
  layout : Wrapper Counters PageData
  home : Component Counters PageData
  admin : Component Counters PageData
  table : TablePage Counters

namespace Site

/-- Compiles the templates of the site. -/
def build : Except TemplateError Site := do
  return { layout := ← Demo.layout, home := ← homeContent, admin := ← adminContent,
           table := ← TablePage.build }

/-- Renders the home page. -/
def renderHome (site : Site) (data : PageData) : Render Counters Unit :=
  site.layout.render data (site.home.render data)

/-- Renders the page for administrators. -/
def renderAdmin (site : Site) (data : PageData) : Render Counters Unit :=
  site.layout.render data (site.admin.render data)

/-- Renders the page with the big table. -/
def renderTable (site : Site) : Render Counters Unit := do
  site.table.render (← countTable)

/-- What a request asks for. -/
inductive Route where
  | home
  | admin
  | table
  | legacy
  deriving DecidableEq, Repr

/-- The route of a request. Method and path are compared exactly. -/
def route? (method path : String) : Option Route :=
  if method ≠ "GET" then none
  else if path = "/" then some .home
  else if path = "/admin" then some .admin
  else if path = "/bench" then some .table
  else if path = "/legacy" then some .legacy
  else none

/-- The user that the address of a request names. Whoever claims to be a user is
one. -/
def userOf (address : String) : Option String :=
  (Http.parameter? address "user").filter fun user => !user.isEmpty

/-- Renders the page of a route. -/
def renderRoute (site : Site) (user : Option String) : Route → Render Counters Unit
  | .home => site.renderHome { title := "Home", path := "/", user := user }
  | .admin => site.renderAdmin { title := "Admin", path := "/admin", user := user }
  | .table => site.renderTable
  | .legacy => Render.modifyResponse (·.redirectPermanently "/bench")

/-- Answers a request: the reply and the session afterwards. The response of the
session is the one that is rendered into. -/
def handle (site : Site) (session : Session Counters) (method address : String) :
    Except Fault (Reply × Session Counters) :=
  match route? method (Http.path address) with
  | some route => Reply.ofPage session (site.renderRoute (userOf address) route)
  | none => .ok (Reply.errorPage 404, session)

end Site

end HtmlTemplate.Demo
