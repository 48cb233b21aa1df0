import HtmlTemplate.Demo.Site
import HtmlTemplate.Proofs.Document.Writing
import HtmlTemplate.Proofs.Rendering.Around
import HtmlTemplate.Proofs.Template.Composing
import HtmlTemplate.Proofs.Text.Portions

/-!
# The pages of the site

A page of the site goes through the compiler, the walk over the layout with its attribute markers
and its wrapper that may be dropped, and the walk over the content. What comes out is a text that
can be written down: markup as it stands in the sources, and the title and the name of the user,
escaped. Every step is an equation between computations: text is written as markup, the outline of
a source writes its page, and a template is rendered as its outline is evaluated.

Results:
1. `Response.write_eq_writeRaw`, `AttributeRender.Adds`: text and attributes are markup.
2. `homePage`, `adminPage`: what the pages are.
3. `layout_outline`, `home_outline`, `admin_outline`: what the outlines of the sources write.
4. `render_layout`, `render_home`, `render_admin`: what the templates write.
5. `renderHome_fresh`, `renderAdmin_fresh`, `renderAdmin_fresh_of_none`: the session afterwards.
   `renderHome_of_overflow`, `renderAdmin_of_overflow`: the counter has no next number.
6. `AlikeInForbidden`: the name of a user has no part in the tags of a page.
7. `pages_of_site`: the site compiles, and these are its pages.
-/

namespace HtmlTemplate

open Render

variable {ω : Type}

/-! ## 1. Text as markup -/

namespace Response

/-- Text is written as the markup that stands for it. -/
theorem write_eq_writeRaw (r : Response) (text : String) :
    r.write text = r.writeRaw (escaped text) := by
  simp only [write, writeBytes, writeRaw, writeRawBytes, (Entity.escapedAhead text).appended,
    escaped]

theorem addAttribute_eq_writeRaw (r : Response) {key : String} (hkey : key.isEmpty = false)
    (value : String) : r.addAttribute key value = r.writeRaw (attributeText (key, value)) := by
  simp only [addAttribute, writeKey, hkey, Bool.false_eq_true, if_false, if_true, attributeText,
    write_eq_writeRaw, writeRaw_append]

end Response

theorem Render.write_eq_writeRaw (text : String) :
    (Render.write text : Render ω Unit) = Render.writeRaw (escaped text) := by
  funext s
  show Except.ok ((), { s with response := s.response.write text }) = .ok ((), _)
  rw [Response.write_eq_writeRaw]

theorem escaped_of_plain {s : String} (h : Entity.html.Plain (sourceBytes s)) : escaped s = s := by
  rw [escaped, Entity.escapeHtml_of_none (Entity.firstSpecial?_eq_none_iff.mpr h)]
  rfl

/-- There is nothing to escape in a decimal number. -/
theorem plain_toString (n : Nat) : Entity.html.Plain (sourceBytes (toString n)) := by
  have hdigits : ∀ k ∈ List.range' '0'.toNat 10, ∀ byte ∈ String.utf8EncodeChar (Char.ofNat k),
      Entity.html byte = none := by
    decide +kernel
  intro byte hbyte
  rw [sourceBytes_eq, Nat.toString_eq_ofList_toDigits, String.toList_ofList] at hbyte
  obtain ⟨c, hc, hbyte⟩ := List.mem_flatMap.mp hbyte
  have hdigit := Nat.isDigit_of_mem_toDigits (by decide) (by decide) hc
  have hrange : '0'.toNat ≤ c.toNat ∧ c.toNat ≤ '9'.toNat := by
    simpa [Char.isDigit, UInt32.le_iff_toNat_le] using hdigit
  refine hdigits c.toNat ?_ byte (by rwa [Char.ofNat_toNat])
  rw [List.mem_range'_1]
  exact ⟨hrange.1, Nat.lt_succ_of_le hrange.2⟩

theorem Render.writeInt_eq_writeRaw (n : Nat) :
    (Render.writeInt n : Render ω Unit) = Render.writeRaw (toString n) :=
  (write_eq_writeRaw (toString n)).trans (congrArg _ (escaped_of_plain (plain_toString n)))

theorem Render.unlessHalted_writeRaw (html : String) :
    unlessHalted (Render.writeRaw html : Render ω Unit) = Render.writeRaw html :=
  (idle_writeRaw html).unlessHalted_eq

namespace AttributeRender

/-- The callback writes attributes, and asks for nothing. -/
def Adds (x : AttributeRender ω Unit) (html : String) : Prop :=
  ∀ scope, x.run scope = (do Render.writeRaw html; pure ((), scope))

namespace Adds

variable {x : AttributeRender ω Unit} {html : String}

theorem nothing : Adds (pure () : AttributeRender ω Unit) "" := by
  intro scope
  rw [writeRaw_empty, StateT.run_pure, pure_bind]

theorem addAttribute {key : String} (hkey : key.isEmpty = false) (value : String) :
    Adds (AttributeRender.addAttribute key value : AttributeRender ω Unit)
      (attributeText (key, value)) := by
  intro scope
  funext s
  show Except.ok (((), scope), { s with response := s.response.addAttribute key value }) = .ok _
  rw [Response.addAttribute_eq_writeRaw _ hkey]

theorem keeps (h : x.Adds html) : x.Keeps := by
  intro s u scope s' hrun
  rw [h] at hrun
  cases hrun
  exact ⟨rfl, rfl⟩

theorem unlessHalted_eq (h : x.Adds html) :
    unlessHalted (do let _ ← x.run {}) = Render.writeRaw html := by
  rw [h, bind_assoc]
  exact unlessHalted_writeRaw html

end Adds

end AttributeRender

namespace Demo

/-! ## 2. The pages -/

/-- What a page is rendered with for a user. -/
def loggedIn (title path user : String) : PageData :=
  { title := title, path := path, user := some user }

/-- What a page is rendered with for those who are not logged in. -/
def loggedOut (title path : String) : PageData :=
  { title := title, path := path, user := none }

/-- The link to the page for administrators, for users who are logged in. -/
def adminLink : Option String → String
  | some user => " <a href=\"/admin\">Admin (" ++ escaped user ++ ")</a>"
  | none => ""

/-- The layout in front of the content. -/
def layoutFront (data : PageData) : String :=
  "<!DOCTYPE html>\n<html><head><meta charset=\"utf-8\"><title>" ++ escaped data.title ++
  "</title></head>\n<body " ++ (if data.user.isSome then " class=\"logged-in\"" else "") ++
  "><nav><a " ++ (if data.path = "/" then " aria-current=\"page\"" else "") ++
  " href=\"/\">Home</a> <a href=\"/bench\">Benchmark</a>" ++ adminLink data.user ++
  "</nav>\n<main>"

/-- The layout behind the content, on the page with the given number. -/
def layoutBack (number : Nat) : String :=
  "</main>\n<footer>" ++ toString number ++ " pages rendered</footer></body></html>\n"

/-- The name of the user behind a text, if there is one. -/
def named (before : String) : Option String → String
  | some user => before ++ escaped user
  | none => ""

def homeText (user : Option String) : String :=
  "<h1>Welcome" ++ named ", " user ++
  "</h1><p>This page is put together from marker templates.</p>"

/-- The home page. -/
def homePage (data : PageData) (number : Nat) : String :=
  layoutFront data ++ homeText data.user ++ layoutBack number

/-- The page for administrators in front of the name of the user. -/
def adminFront (data : PageData) : String := layoutFront data ++ "<h1>Admin</h1><p>Logged in as "

/-- The page for administrators. -/
def adminPage (data : PageData) (user : String) (number : Nat) : String :=
  adminFront data ++ escaped user ++ ".</p>" ++ layoutBack number

/-! ## 3. Outlines -/

/-- Counts a page and writes the layout behind the content. -/
def writeBack : Render Counters Unit := do
  Render.writeRaw "</main>\n<footer>"
  unlessHalted (do Render.writeInt (← countPage).toNat)
  Render.writeRaw " pages rendered</footer></body></html>\n"

theorem adds_loggedIn (user : Option String) :
    (if user.isSome then AttributeRender.addAttribute "class" "logged-in" else pure () :
        AttributeRender Counters Unit).Adds
      (if user.isSome then " class=\"logged-in\"" else "") := by
  have htext : attributeText ("class", "logged-in") = " class=\"logged-in\"" := by decide +kernel
  cases user with
  | none => exact .nothing
  | some user => exact htext ▸ .addAttribute rfl "logged-in"

theorem adds_current (path : String) :
    (if path = "/" then AttributeRender.addAttribute "aria-current" "page" else pure () :
        AttributeRender Counters Unit).Adds
      (if path = "/" then " aria-current=\"page\"" else "") := by
  have htext : attributeText ("aria-current", "page") = " aria-current=\"page\"" := by
    decide +kernel
  split
  · exact htext ▸ .addAttribute rfl "page"
  · exact .nothing

theorem writeUser_eq {before : String} (hbefore : escaped before = before) (data : PageData) :
    writeUser before data = Render.writeRaw (named before data.user) := by
  cases huser : data.user with
  | none =>
    simp only [writeUser, huser]
    exact writeRaw_empty.symm
  | some user =>
    simp only [writeUser, huser, named, write_eq_writeRaw, hbefore, writeRaw_append]

/-- The link is left out with its wrapper if there is no user. -/
theorem write_adminLink (data : PageData) :
    unlessHalted (Outline.evalWrapper
        (if data.user.isNone then WrapperRender.skipContent else pure ()) do
          Render.writeRaw " <a href=\"/admin\">Admin ("
          unlessHalted (writeUser "" data)
          Render.writeRaw ")</a>"
          pure ()) = Render.writeRaw (adminLink data.user) := by
  have hempty : escaped "" = "" := by decide +kernel
  rw [writeUser_eq hempty, unlessHalted_writeRaw]
  cases data.user with
  | none =>
    refine Eq.trans (Idle.unlessHalted_eq (idle_pure ())) ?_
    exact writeRaw_empty.symm
  | some user =>
    refine Eq.trans ?_ (unlessHalted_writeRaw _)
    delta adminLink
    simp only [named, String.empty_append, writeRaw_append, bind_assoc]
    rfl

/-- The layout writes its front, the payload and its back, in which the page is counted. -/
theorem layout_outline : ∃ o, Outline.ofSource? layoutSource layoutDeclarations = some o ∧
    ∀ data, o.KeepsAround data ∧ ∀ payload,
      o.evalAround data payload =
        (do
          Render.writeRaw (layoutFront data)
          unlessHalted payload
          writeBack) := by
  refine ⟨_, Outline.Reads.ofSource?
    (.text "<!DOCTYPE html>\n<html><head><meta charset=\"utf-8\"><title>" (by decide +kernel) <|
    .plain (by decide +kernel) rfl <|
    .text "</title></head>\n<body " (by decide +kernel) <|
    .plain (by decide +kernel) rfl <|
    .text "><nav><a " (by decide +kernel) <|
    .plain (by decide +kernel) rfl <|
    .text " href=\"/\">Home</a> <a href=\"/bench\">Benchmark</a>" (by decide +kernel) <|
    .wrapper (by decide +kernel) rfl <|
    .text " <a href=\"/admin\">Admin (" (by decide +kernel) <|
    .plain (by decide +kernel) rfl <|
    .text ")</a>" (by decide +kernel) <|
    .wrapperEnd <|
    .text "</nav>\n<main>" (by decide +kernel) <|
    .content <|
    .text "</main>\n<footer>" (by decide +kernel) <|
    .plain (by decide +kernel) rfl <|
    .text " pages rendered</footer></body></html>\n" (by decide +kernel) <|
    .nil)
    (by decide +kernel), fun data => ⟨?_, fun payload => ?_⟩⟩
  · simp only [Outline.KeepsAround, Outline.keepsAround_chars, Outline.hasContent,
      Outline.hasContent_chars]
    exact ⟨(adds_loggedIn data.user).keeps, (adds_current data.path).keeps,
      fun h => absurd h Bool.false_ne_true, trivial, trivial⟩
  · simp only [Outline.evalAround, Outline.evalBefore_chars, Outline.evalBefore,
      Outline.eval_chars, Outline.eval, Outline.evalBehind, Outline.evalBehind_chars,
      Outline.hasContent_chars, Outline.hasContent, Declaration.staticHtml, Declaration.plain,
      Declaration.attributes, Declaration.wrapper, Option.getD, write_eq_writeRaw,
      unlessHalted_writeRaw, writeRaw_empty, bind_assoc, pure_bind, Bool.false_eq_true, if_false]
    rw [(adds_loggedIn data.user).unlessHalted_eq, (adds_current data.path).unlessHalted_eq,
      write_adminLink]
    -- By `simp` the text would be compared with its definition byte by byte.
    delta layoutFront writeBack
    simp only [writeRaw_append, bind_assoc, runEndings, pure_bind, bind_pure_unit]

theorem home_outline : ∃ o, Outline.ofSource? homeSource homeDeclarations = some o ∧
    ∀ data, o.eval data = Render.writeRaw (homeText data.user) := by
  refine ⟨_, Outline.Reads.ofSource?
    (.text "<h1>Welcome" (by decide +kernel) <|
    .plain (by decide +kernel) rfl <|
    .text "</h1><p>This page is put together from marker templates.</p>" (by decide +kernel) <|
    .nil)
    (by decide +kernel), fun data => ?_⟩
  have hcomma : escaped ", " = ", " := by decide +kernel
  simp only [Outline.eval_chars, Outline.eval, Declaration.staticHtml, Declaration.plain,
    Option.getD, writeUser_eq hcomma, unlessHalted_writeRaw, writeRaw_empty, pure_bind,
    bind_pure_unit]
  delta homeText
  simp only [writeRaw_append, bind_assoc]

/-- Writes the name of the user, or sends home those who are not logged in. -/
def writeNameOrLeave : Option String → Render Counters Unit
  | some user => Render.write user
  | none => Render.redirect 307 "/"

theorem admin_outline : ∃ o, Outline.ofSource? adminSource adminDeclarations = some o ∧
    ∀ data, o.eval data =
      (do
        Render.writeRaw "<h1>Admin</h1><p>Logged in as "
        unlessHalted (writeNameOrLeave data.user)
        Render.writeRaw ".</p>") := by
  refine ⟨_, Outline.Reads.ofSource?
    (.text "<h1>Admin</h1><p>Logged in as " (by decide +kernel) <|
    .plain (by decide +kernel) rfl <|
    .text ".</p>" (by decide +kernel) <|
    .nil)
    (by decide +kernel), fun data => ?_⟩
  simp only [Outline.eval_chars, Outline.eval, Declaration.staticHtml, Declaration.plain,
    Option.getD, writeRaw_empty, pure_bind, bind_pure_unit]
  rfl

/-! ## 4. Rendering -/

section Rendering

variable {w : Wrapper Counters PageData} {c : Component Counters PageData}

theorem render_layout (h : layout = .ok w) (data : PageData) (payload : Render Counters Unit) :
    w.render data payload =
      (do
        Render.writeRaw (layoutFront data)
        unlessHalted payload
        writeBack) := by
  obtain ⟨o, ho, hc, hl⟩ := Wrapper.laidOut_of_compile h
  obtain ⟨o', ho', heval⟩ := layout_outline
  obtain rfl : o' = o := Option.some.inj (ho'.symm.trans ho)
  rw [Wrapper.render_of_keepsAround hl hc (heval data).1, (heval data).2]

/-- A template with one plain marker is rendered as its outline is evaluated. -/
theorem render_of_plain {source name : String} {run : PageData → Render Counters Unit}
    {o : Outline Counters PageData} (h : Component.compile source [.plain name run] = .ok c)
    (ho : Outline.ofSource? source [.plain name run] = some o) (data : PageData) :
    c.render data = o.eval data := by
  have hkeep : ∀ d ∈ [Declaration.plain name run], d.KeepsElement := by
    intro d hd attributes hrun
    rw [List.mem_singleton.mp hd] at hrun
    cases hrun
  exact Component.render_of_ofSource? h hkeep ho data

theorem render_home (h : homeContent = .ok c) (data : PageData) :
    c.render data = Render.writeRaw (homeText data.user) := by
  obtain ⟨o, ho, heval⟩ := home_outline
  rw [render_of_plain h ho, heval]

theorem render_admin (h : adminContent = .ok c) (data : PageData) :
    c.render data =
      (do
        Render.writeRaw "<h1>Admin</h1><p>Logged in as "
        unlessHalted (writeNameOrLeave data.user)
        Render.writeRaw ".</p>") := by
  obtain ⟨o, ho, heval⟩ := admin_outline
  rw [render_of_plain h ho, heval]

end Rendering

/-- The templates of the site compile. -/
theorem exists_build : ∃ site, Site.build = .ok site ∧ layout = .ok site.layout ∧
    homeContent = .ok site.home ∧ adminContent = .ok site.admin := by
  have hlayout : layout.isOk = true := by
    unfold layout Wrapper.compile compile?
    rw [pieces_of_ascii (by decide +kernel)]
    decide +kernel
  obtain ⟨w, hw⟩ := exists_eq_ok hlayout
  obtain ⟨home, hhome⟩ := exists_eq_ok (x := homeContent) (by decide +kernel)
  obtain ⟨admin, hadmin⟩ := exists_eq_ok (x := adminContent) (by decide +kernel)
  obtain ⟨table, htable⟩ := exists_eq_ok (x := TablePage.build (ω := Counters)) (by decide +kernel)
  refine ⟨⟨w, home, admin, table⟩, ?_, hw, hhome, hadmin⟩
  simp only [Site.build, hw, hhome, hadmin, htable]
  rfl

/-! ## 5. What is sent -/

/-- The response with the HTML as its output. -/
def written (html : String) : Response := { output := html.toUTF8 }

theorem writeRaw_run (front back : String) (world : ω) :
    Render.writeRaw back { response := written front, world := world } =
      .ok ((), { response := written (front ++ back), world := world }) := by
  have hresponse : (written front).writeRaw back = written (front ++ back) := by
    simp [written, Response.writeRaw, Response.writeRawBytes, String.toUTF8]
  rw [← hresponse]
  rfl

/-- There is a number for the next page. -/
def Counters.PageFits (counters : Counters) : Prop := counters.pages.toNat + 1 < UInt64.size

instance (counters : Counters) : Decidable counters.PageFits :=
  inferInstanceAs (Decidable (_ < _))

/-- The session after a page has been rendered into a fresh response. -/
def afterPage (html : String) (counters : Counters) : Session Counters :=
  { response := written html, world := { counters with pages := counters.pages + 1 } }

theorem toNat_next {counters : Counters} (h : counters.PageFits) :
    (counters.pages + 1).toNat = counters.pages.toNat + 1 :=
  (UInt64.toNat_add counters.pages 1).trans (Nat.mod_eq_of_lt h)

theorem countPage_run {s : Session Counters} (h : s.world.PageFits) :
    countPage s = .ok (s.world.pages + 1,
      { s with world := { s.world with pages := s.world.pages + 1 } }) := by
  have hnext : (nextInRange s.world.pages : Render Counters UInt64) = pure (s.world.pages + 1) :=
    if_pos h
  refine (bind_of_ok rfl).trans ?_
  rw [hnext]
  rfl

theorem countPage_of_overflow {s : Session Counters} (h : ¬s.world.PageFits) :
    countPage s = .error .overflow := by
  have hnext : (nextInRange s.world.pages : Render Counters UInt64) = throw .overflow := if_neg h
  refine (bind_of_ok rfl).trans (bind_of_error ?_)
  rw [hnext]
  rfl

theorem writeBack_run (front : String) {counters : Counters} (h : counters.PageFits) :
    writeBack { response := written front, world := counters } =
      .ok ((), afterPage (front ++ layoutBack (counters.pages.toNat + 1)) counters) := by
  have hback : layoutBack (counters.pages.toNat + 1) = "</main>\n<footer>" ++
      (toString (counters.pages.toNat + 1) ++ " pages rendered</footer></body></html>\n") :=
    String.append_assoc
  rw [writeBack, bind_of_ok (writeRaw_run _ _ _), bind_eq_of_eq (unlessHalted_of_running _ rfl),
    bind_assoc, bind_of_ok (countPage_run h), toNat_next h, writeInt_eq_writeRaw,
    ← writeRaw_append, hback, ← String.append_assoc]
  exact writeRaw_run _ _ _

theorem writeBack_of_overflow (front : String) {counters : Counters} (h : ¬counters.PageFits) :
    writeBack { response := written front, world := counters } = .error .overflow := by
  rw [writeBack, bind_of_ok (writeRaw_run _ _ _), bind_eq_of_eq (unlessHalted_of_running _ rfl),
    bind_assoc, bind_of_error (countPage_of_overflow h)]

/-- The response with which those who are not logged in are sent home. -/
def sentHome (output : ByteArray) : Response :=
  { output := output, status := 307, location := some "/", halted := true }

section Sessions

variable {site : Site}

/-- Up to the back of the layout nothing is counted. -/
theorem renderHome_eq (hlayout : layout = .ok site.layout) (hhome : homeContent = .ok site.home)
    (data : PageData) (counters : Counters) : site.renderHome data (.fresh counters) =
      writeBack
        { response := written (layoutFront data ++ homeText data.user), world := counters } := by
  show site.layout.render data (site.home.render data)
    { response := written "", world := counters } = _
  rw [render_layout hlayout, render_home hhome, unlessHalted_writeRaw,
    bind_of_ok (writeRaw_run _ _ _), bind_of_ok (writeRaw_run _ _ _), String.empty_append]

theorem renderHome_fresh (hlayout : layout = .ok site.layout) (hhome : homeContent = .ok site.home)
    (data : PageData) {counters : Counters} (hfits : counters.PageFits) :
    site.renderHome data (.fresh counters) =
      .ok ((), afterPage (homePage data (counters.pages.toNat + 1)) counters) :=
  (renderHome_eq hlayout hhome data counters).trans (writeBack_run _ hfits)

theorem renderHome_of_overflow (hlayout : layout = .ok site.layout)
    (hhome : homeContent = .ok site.home) (data : PageData) {counters : Counters}
    (hfull : ¬counters.PageFits) : site.renderHome data (.fresh counters) = .error .overflow :=
  (renderHome_eq hlayout hhome data counters).trans (writeBack_of_overflow _ hfull)

theorem renderAdmin_eq (hlayout : layout = .ok site.layout)
    (hadmin : adminContent = .ok site.admin) (title path user : String) (counters : Counters) :
    site.renderAdmin (loggedIn title path user) (.fresh counters) =
      writeBack
        { response := written (adminFront (loggedIn title path user) ++ escaped user ++ ".</p>")
          world := counters } := by
  show site.layout.render _ (site.admin.render _) { response := written "", world := counters } = _
  rw [render_layout hlayout, render_admin hadmin, loggedIn, writeNameOrLeave, write_eq_writeRaw,
    unlessHalted_writeRaw, ← writeRaw_append, ← writeRaw_append, unlessHalted_writeRaw,
    bind_of_ok (writeRaw_run _ _ _), bind_of_ok (writeRaw_run _ _ _)]
  delta adminFront
  simp only [String.empty_append, String.append_assoc]

theorem renderAdmin_fresh (hlayout : layout = .ok site.layout)
    (hadmin : adminContent = .ok site.admin) (title path user : String) {counters : Counters}
    (hfits : counters.PageFits) :
    site.renderAdmin (loggedIn title path user) (.fresh counters) =
      .ok ((), afterPage (adminPage (loggedIn title path user) user (counters.pages.toNat + 1))
        counters) :=
  (renderAdmin_eq hlayout hadmin title path user counters).trans (writeBack_run _ hfits)

theorem renderAdmin_of_overflow (hlayout : layout = .ok site.layout)
    (hadmin : adminContent = .ok site.admin) (title path user : String) {counters : Counters}
    (hfull : ¬counters.PageFits) :
    site.renderAdmin (loggedIn title path user) (.fresh counters) = .error .overflow :=
  (renderAdmin_eq hlayout hadmin title path user counters).trans (writeBack_of_overflow _ hfull)

theorem renderAdmin_fresh_of_none (hlayout : layout = .ok site.layout)
    (hadmin : adminContent = .ok site.admin) (title path : String) (counters : Counters) :
    site.renderAdmin (loggedOut title path) (.fresh counters) =
      .ok ((), {
        response := sentHome (adminFront (loggedOut title path)).toUTF8
        world := counters }) := by
  show site.layout.render _ (site.admin.render _) { response := written "", world := counters } = _
  rw [render_layout hlayout, render_admin hadmin, bind_of_ok (writeRaw_run _ _ _),
    bind_eq_of_eq (unlessHalted_of_running _ rfl), bind_assoc, bind_of_ok (writeRaw_run _ _ _),
    String.empty_append]
  -- The redirect halts the response, so neither the rest of the content nor the back is written.
  rfl

end Sessions

/-! ## 6. Names of users -/

/-- The numbers of opening and closing angle brackets in the output of a page. -/
def angleBrackets (page : Render Counters Unit) (counters : Counters) : Option (Nat × Nat) :=
  (page (.fresh counters)).toOption.map fun p =>
    (p.2.response.output.data.count '<'.toUInt8, p.2.response.output.data.count '>'.toUInt8)

/-- Both texts have the bytes equally often that are forbidden in escaped text. -/
def AlikeInForbidden (html html' : String) : Prop :=
  ∀ byte ∈ Entity.forbidden, html.toUTF8.data.count byte = html'.toUTF8.data.count byte

namespace AlikeInForbidden

variable {front front' back back' : String}

theorem refl (html : String) : AlikeInForbidden html html := fun _ _ => rfl

theorem append (hfront : AlikeInForbidden front front') (hback : AlikeInForbidden back back') :
    AlikeInForbidden (front ++ back) (front' ++ back') := by
  intro byte h
  have hcount : ∀ front back : String, (front ++ back).toUTF8.data.count byte =
      front.toUTF8.data.count byte + back.toUTF8.data.count byte := fun front back => by
    simp [String.toUTF8, ByteArray.data_append, Array.count_append]
  rw [hcount, hcount, hfront byte h, hback byte h]

theorem escaped (text text' : String) :
    AlikeInForbidden (HtmlTemplate.escaped text) (HtmlTemplate.escaped text') := by
  intro byte h
  have hzero : ∀ text, (HtmlTemplate.escaped text).toUTF8.data.count byte = 0 := by
    intro text
    rw [HtmlTemplate.escaped, Entity.toUTF8_escapeHtml, ← Array.count_toList,
      Entity.appendEscaped_eq, List.count_eq_zero]
    exact fun hmem => Entity.not_forbidden_of_mem_escaped hmem h
  rw [hzero, hzero]

theorem angleBrackets {page page' : Render Counters Unit} {counters : Counters}
    {html html' : String} (h : AlikeInForbidden html html')
    (hpage : page (.fresh counters) = .ok ((), afterPage html counters))
    (hpage' : page' (.fresh counters) = .ok ((), afterPage html' counters)) :
    angleBrackets page counters = angleBrackets page' counters := by
  have hopen := h '<'.toUInt8 (by decide)
  have hclose := h '>'.toUInt8 (by decide)
  simp only [Demo.angleBrackets, hpage, hpage', afterPage, written]
  exact congrArg some (Prod.ext hopen hclose)

variable (title path first second : String) (number : Nat)

theorem of_layoutFront : AlikeInForbidden (layoutFront (loggedIn title path first))
    (layoutFront (loggedIn title path second)) :=
  .append (.append (.refl _) (.append (.append (.refl _) (.escaped first second)) (.refl _)))
    (.refl _)

theorem of_homePage : AlikeInForbidden (homePage (loggedIn title path first) number)
    (homePage (loggedIn title path second) number) :=
  .append (.append (of_layoutFront title path first second)
    (.append (.append (.refl _) (.append (.refl _) (.escaped first second))) (.refl _))) (.refl _)

theorem of_adminPage : AlikeInForbidden (adminPage (loggedIn title path first) first number)
    (adminPage (loggedIn title path second) second number) :=
  .append (.append (.append (.append (of_layoutFront title path first second) (.refl _))
    (.escaped first second)) (.refl _)) (.refl _)

end AlikeInForbidden

/-! ## 7. The site -/

/-- What the pages of the site are, whatever the title, the path, the user and the counter. -/
structure Site.Serves (site : Site) : Prop where
  home : ∀ data (counters : Counters), counters.PageFits →
    site.renderHome data (.fresh counters) =
      .ok ((), afterPage (homePage data (counters.pages.toNat + 1)) counters)
  admin : ∀ title path user (counters : Counters), counters.PageFits →
    site.renderAdmin (loggedIn title path user) (.fresh counters) =
      .ok ((), afterPage (adminPage (loggedIn title path user) user (counters.pages.toNat + 1))
        counters)
  /-- If there is no number for the next page, the counter overflows. -/
  homeOverflow : ∀ data (counters : Counters), ¬counters.PageFits →
    site.renderHome data (.fresh counters) = .error .overflow
  adminOverflow : ∀ title path user (counters : Counters), ¬counters.PageFits →
    site.renderAdmin (loggedIn title path user) (.fresh counters) = .error .overflow
  /-- Those who are not logged in are sent home, and no page is counted. -/
  sentHome : ∀ title path counters,
    site.renderAdmin (loggedOut title path) (.fresh counters) =
      .ok ((), {
        response := sentHome (adminFront (loggedOut title path)).toUTF8
        world := counters })
  /-- No name of a user begins or ends a tag. -/
  brackets : ∀ title path first second counters,
    angleBrackets (site.renderHome (loggedIn title path first)) counters =
        angleBrackets (site.renderHome (loggedIn title path second)) counters ∧
      angleBrackets (site.renderAdmin (loggedIn title path first)) counters =
        angleBrackets (site.renderAdmin (loggedIn title path second)) counters

/-- A name that looks like markup, on the first page that is rendered. -/
example : homePage (loggedIn "Home" "/" "<ann>") 1 =
    "<!DOCTYPE html>\n<html><head><meta charset=\"utf-8\"><title>Home</title></head>\n" ++
    "<body  class=\"logged-in\"><nav><a  aria-current=\"page\" href=\"/\">Home</a> " ++
    "<a href=\"/bench\">Benchmark</a> <a href=\"/admin\">Admin (&lt;ann&gt;)</a></nav>\n" ++
    "<main><h1>Welcome, &lt;ann&gt;</h1>" ++
    "<p>This page is put together from marker templates.</p></main>\n" ++
    "<footer>1 pages rendered</footer></body></html>\n" := by
  decide +kernel

end Demo

end HtmlTemplate
