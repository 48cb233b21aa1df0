import HtmlTemplate.Template.Assembly

/-!
# Templates in files

A `TemplateFile` is a path and what is stored there. Compiling it may fail
because it cannot be read as text or because the template is refused. Messages
name the path and the kind of template.
-/

namespace HtmlTemplate

variable {ω δ : Type}

/-- A path, and the bytes stored there if there is a file. -/
structure TemplateFile where
  path : String
  content? : Option ByteArray

/-- Why a file cannot be read as text. -/
inductive ReadError where
  | notFound
  | notUtf8
  deriving DecidableEq, Repr

/-- The message of a read error. -/
def ReadError.message : ReadError → String
  | notFound => "No such file or directory (os error 2)"
  | notUtf8 => "stream did not contain valid UTF-8"

/-- Why a file is not compiled. `noun` is the word for the kind of template. -/
inductive FileError where
  | reading (noun path : String) (reason : ReadError)
  | compiling (noun path : String) (reason : TemplateError)
  deriving DecidableEq, Repr

/-- The message of a file error, with its reason. -/
def FileError.message : FileError → String
  | reading noun path reason =>
    "reading " ++ noun ++ " " ++ Text.quoted path ++ ": " ++ reason.message
  | compiling noun path reason =>
    "compiling " ++ noun ++ " " ++ Text.quoted path ++ ": " ++ reason.message

namespace TemplateFile

/-- The text of the file. -/
def text (file : TemplateFile) : Except ReadError String :=
  match file.content? with
  | none => .error .notFound
  | some bytes =>
    match String.fromUTF8? bytes with
    | none => .error .notUtf8
    | some text => .ok text

/-- Compiles the text of the file with `compile`. -/
def compileWith {α : Type} (file : TemplateFile) (noun : String)
    (compile : String → Except TemplateError α) : Except FileError α := do
  let text ← file.text.mapError (.reading noun file.path)
  (compile text).mapError (.compiling noun file.path)

end TemplateFile

/-- Compiles a template without a content marker from a file. -/
def Component.compileFile (file : TemplateFile) (declarations : List (Declaration ω δ)) :
    Except FileError (Component ω δ) :=
  file.compileWith "template" (Component.compile · declarations)

/-- Compiles a template with a content marker from a file. -/
def Wrapper.compileFile (file : TemplateFile) (declarations : List (Declaration ω δ)) :
    Except FileError (Wrapper ω δ) :=
  file.compileWith "wrapper template" (Wrapper.compile · declarations)

end HtmlTemplate
