import KeyedRender.Component.Basic
import KeyedRender.Key.Fragment
import KeyedRender.Payload.Basic
import KeyedRender.VisualElement

/-!
# Template scripts

A script is what a template does with the renderer it is given: single instructions, blocks that
run a nested script in some way, and components with the two scripts of their rendering, the second
of which fills the element that the rendering opens, if it opens one. Every
constructor ends with the script that follows, so that a script is also a list of steps.
-/
namespace KeyedRender

inductive ContentKind
  | html
  | attributes
  | text
deriving DecidableEq

/-- The kinds of content that are rendered, not computed. -/
inductive RenderedKind
  | html
  | attributes
deriving DecidableEq

def RenderedKind.content : RenderedKind → ContentKind
  | html => .html
  | attributes => .attributes

abbrev Filter := String → String

inductive Printable
  | null
  | bool (value : Bool)
  | number (value : Binary64)
  | text (value : String)
  | sanitizedHtml (markup : String)
deriving DecidableEq

/-- A template that computes text, with a parameter of its own or else the one in force. -/
structure TextTemplate where
  text : String
  parameter : Option String

inductive Instruction
  | kind
  | openElement (name key : String)
  | closeElement
  | text (value : String)
  | pointer
  | current
  | parameter
  | injected
  | maybeSkip (skip : Bool)
  | pushKey (fragment : Key.Fragment)
  | newKey (fragment : Key.Fragment)
  | currentKey
  | decodeCurrentKey
  | decodeKey (encoded : String)
  | toDefault
  | verifyLogOnly (logOnly : Bool)
  | evaluateLogging (name : String) (arguments : List Payload) (placeholder : String)
  | logger
  | isTruthy (value : Printable)
  | requeue (index : Nat)
  | callText (template : TextTemplate) (escaper : Option Filter)
  | templateKind (kind : ContentKind)
  | functionKind (kind : RenderedKind)
  | inspect (node : NodeId)
  | appendComment (parent : NodeId) (value : String)
  | setInnerMarkup (node : NodeId) (markup : String)
  | setComment (node : NodeId) (value : String)
  | pushManualKey (fragment : Key.Fragment)
  | popManualKey
  | popKey (previous : Option String)
  | setAttribute (name value : String)
  | skip
  | skipNode
  | applyAttributes
  | applyStatics (attributes : List (String × String))
  | enter (element : VisualElementData) (logOnly : Bool)
  | exit
  | setLogger (logger : Option Nat)
  | comment (value : String)
  | print (value : Printable)
  | printContent (value : Printable)
  | callHtml (template : TextTemplate)
  | callAttributes (template : TextTemplate) (filter : Filter)
  | callEscaped (template : TextTemplate) (escaper : Filter)
  | printAttributes (sanitized : Bool) (markup : String) (filter : Filter)

inductive Block
  | openServerElement (name key : String) (parameters : Option Payload)
  | attempt
  | probe
  | coerce (kind : RenderedKind)
  | muted
  | shielded
  | isTruthy
  | print
  | printContent
  | callHtml (kind : RenderedKind) (parameter : Option String)
  | callAttributes (kind : RenderedKind) (parameter : Option String) (filter : Filter)
  | callText (kind : RenderedKind) (parameter : Option String) (escaper : Option Filter)
  | callEscaped (kind : RenderedKind) (parameter : Option String) (escaper : Filter)
  | functionText (kind : RenderedKind)
  | functionTruth (kind : RenderedKind)
  | functionCall (kind : RenderedKind)
  | printAttributes (kind : RenderedKind) (filter : Filter)

/-- What a component's rendering does after its first script, and what it answers with: the element
that it opens for its body, nothing, a text in the place of the element, a node that it got from
elsewhere, or, if the first script was the whole rendering, any node at all. -/
inductive RootForm
  | opened
  | none
  | text
  | given (node : NodeId)
  | bare (node : Option NodeId)
deriving DecidableEq

/-- The node from elsewhere that a rendering answers with. -/
def RootForm.given? : RootForm → Option NodeId
  | given node => some node
  | bare node => node
  | _ => .none

structure ComponentSpec where
  type : ComponentType
  first : Key.Fragment
  label : String
  name : String
  key : String
  root : RootForm

inductive Script
  | done
  | step (instruction : Instruction) (next : Script)
  | block (block : Block) (body next : Script)
  | component (spec : ComponentSpec) (before body next : Script)

end KeyedRender
