import HtmlTemplate.Template.Marker

/-!
# What can be wrong with a template

The causes for which a template and its declarations are refused. All of them
are found when the template is compiled, none when it is rendered.
-/

namespace HtmlTemplate

inductive TemplateError where
  /-- A wrapper end without a start, or the other way round. -/
  | unbalancedWrapper
  | duplicateContent
  | unexpectedContent
  | missingContent
  /-- A named token does not have the name declared next. -/
  | nameOrder (expected found : String)
  | duplicateName (name : String)
  /-- The number of declarations is not that of the named tokens. -/
  | markerCount (declared found : Nat)
  /-- A callback does not fit its marker. -/
  | callbackKind (name : String) (kind : MarkerKind) (callback : CallbackKind)
  /-- A wrapper or content token inside a tag, at a byte of the source. -/
  | tokenInsideTag (start : Nat)
  | markerInsideEndTag (name : String)
  /-- An element with attribute markers has no end tag. -/
  | unclosedElement (name : String)
  /-- A wrapper is opened on one side of a tag of an element with attribute
  markers and closed on the other. -/
  | wrapperCrossesElement (name : String)
  /-- There are more literal bytes than a template can have. -/
  | tooLarge
  deriving DecidableEq, Repr

/-- The message of an error. -/
def TemplateError.message : TemplateError → String
  | unbalancedWrapper => "unbalanced wrapper start and end points"
  | duplicateContent => "only one wrapper content marker is allowed"
  | unexpectedContent => "content marker found in a template that is not a wrapper"
  | missingContent => "a wrapper must define a content marker"
  | nameOrder expected found =>
    "marker " ++ Name.shown found ++ " found where the declaration " ++ Name.shown expected ++
      " was next"
  | duplicateName name => "marker name " ++ Name.shown name ++ " used more than once"
  | markerCount declared found =>
    "unequal number of template markers (" ++ toString found ++ ") and marker declarations (" ++
      toString declared ++ ")"
  | callbackKind name kind callback =>
    "marker " ++ Name.shown name ++ " is a " ++ kind.label ++ " marker but was given a " ++
      callback.label ++ " callback"
  | tokenInsideTag start =>
    "wrapper or content token inside an HTML tag at byte " ++ toString start
  | markerInsideEndTag name => "marker " ++ Name.shown name ++ " inside an HTML end tag"
  | unclosedElement name => "element <" ++ name ++ "> carrying attribute markers is never closed"
  | wrapperCrossesElement name =>
    "wrapper nesting crosses the boundary of element <" ++ name ++ "> carrying attribute markers"
  | tooLarge => "template literal text exceeds 4 GiB"

end HtmlTemplate
