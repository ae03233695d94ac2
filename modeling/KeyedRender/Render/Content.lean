import KeyedRender.Markup.Attributes
import KeyedRender.Render.Patch
import KeyedRender.Key.Numbers

/-!
# Content known at run time

Values are printed as text, sanitized markup that needs it goes into an element of its own, and
templates are called in contexts of other kinds by turning what they render into text. Markup
that stands for attributes is split into them, and names that do not pass the filter lose their
value.
-/
namespace KeyedRender.RenderM

variable {τ : Type} [RenderTarget τ]

def printedText : Printable → String
  | .null => "null"
  | .bool true => "true"
  | .bool false => "false"
  | .number value => String.ofList (Key.numberText value)
  | .text value => value
  | .sanitizedHtml markup => markup

def isTruthy : Printable → Bool
  | .null => false
  | .bool value => value
  | .number value => !value.isZero && !value.isNaN
  | .text value => !value.isEmpty
  | .sanitizedHtml markup => !markup.isEmpty

def printContent (value : Printable) : RenderM τ Unit := do
  let _ ← text (printedText value)

def needsMarkup (markup : String) : Bool :=
  markup.toList.any fun c => c = '<' || c = '&'

def writeBlob (node : NodeId) (markup : String) : RenderM τ Unit := do
  let written := ((← targetDocument).record? node).bind NodeRecord.blob
  if written ≠ some markup then
    emit (.setInnerMarkup node markup)
    changeRecord node fun r => { r with blob := some markup }

/-- Prints a value. Markup that needs it goes into an element whose content is skipped. -/
def print : Printable → RenderM τ Unit
  | .sanitizedHtml markup => do
    if needsMarkup markup then
      let blob ← openElement "html-blob" ""
      match blob with
      | some node => writeBlob node markup
      | none => pure ()
      emit .skip
      emit .closeElement
    else printContent (.text markup)
  | value => printContent value

/-- Writes a comment. One right after the current element is rewritten, and otherwise a new one
goes to the end of the current element; the node at the pointer is skipped. -/
def comment (value : String) : RenderM τ Unit := do
  match ← current? with
  | none => return ()
  | some element =>
    let document ← targetDocument
    match (document.nextSibling? element).filter document.isComment with
    | some existing => emit (.setComment existing value)
    | none => emit (.appendComment element value)
    emit .skipNode

def refusedName : String := "zSoyz"

def setAttributes : List (String × String) → RenderM τ Unit
  | [] => return ()
  | (name, value) :: rest => do
    setAttribute name (if name = refusedName then "" else value)
    setAttributes rest

/-- Prints markup that stands for attributes. Names of sanitized markup are not filtered. -/
def printAttributes (sanitized : Bool) (markup : String) (filter : Filter) : RenderM τ Unit :=
  setAttributes ((Markup.splitAttributes markup).map fun (name, value) =>
    (if sanitized then name else filter name, value))

def withParameter {α : Type} (parameter : Option String) (m : RenderM τ α) : RenderM τ α :=
  withContext (fun ctx => { ctx with parameter := parameter.getD ctx.parameter }) m

def substitute (mark value : List Char) (text : List Char) : List Char :=
  match text with
  | [] => []
  | c :: rest =>
    if mark.isPrefixOf (c :: rest) then
      value ++ substitute mark value (rest.drop (mark.length - 1))
    else c :: substitute mark value rest
termination_by text.length
decreasing_by
  · simp only [List.length_drop, List.length_cons]; omega
  · simp

def templateText (template : TextTemplate) : RenderM τ String := do
  let ctx ← context
  let parameter := template.parameter.getD ctx.parameter
  let filled := substitute "\x7bdata\x7d".toList parameter.toList template.text.toList
  return String.ofList (substitute "\x7bij\x7d".toList ctx.injected.compactText.toList filled)

def callHtml (kind : RenderedKind) (template : Rendering) : RenderM τ Unit := do
  match kind with
  | .html => template τ
  | .attributes =>
    let _ ← text (← attributesText template)

def callAttributes (kind : RenderedKind) (template : Rendering) (filter : Filter) :
    RenderM τ Unit := do
  match kind with
  | .attributes => template τ
  | .html => printAttributes false (filter (← htmlText template)) filter

def callText (kind : RenderedKind) (template : Rendering) (escaper : Option Filter) :
    RenderM τ String := do
  return (escaper.getD id) (← renderedText kind template)

def printRendered (kind : RenderedKind) (template : Rendering) (filter : Filter) :
    RenderM τ Unit := do
  match kind with
  | .attributes => template τ
  | .html => printAttributes false (← htmlText template) filter

end KeyedRender.RenderM
