import KeyedRender.Render.Calls
import KeyedRender.Target.MarkupWriter

/-!
# Passes

A pass tells the target about its beginning and its end, also when the template fails in between.
Only a pass that succeeds synchronizes the components it queued. A pass on a new markup target
turns content into text.
-/
namespace KeyedRender.RenderM

variable {τ : Type} [RenderTarget τ]

def bracketed (root : NodeId) (mode : PatchMode) (rule : Key.MatchRule) (logger : Option LoggerId)
    (template : RenderM τ Unit) : RenderM τ Unit := do
  let _ ← callTarget (.beginPatch root mode rule)
  setLogger logger
  let result ← attempt template
  let _ ← callTarget .endPatch
  resume result

/-- One pass over a root, on a renderer that has just been started. -/
def patch (root : NodeId) (mode : PatchMode) (rule : Key.MatchRule) (logger : Option LoggerId)
    (template : RenderM τ Unit) : RenderM τ Unit := do
  bracketed root mode rule logger template
  flushQueue

/-- Renders the children of the root of a new markup target, with the logger in force. -/
def write (template : Rendering) : RenderM τ MarkupWriter := do
  let logger ← logger?
  let ((), after) ← detour (.start MarkupWriter.new)
    (patch MarkupWriter.root .inner .keyed logger (template MarkupWriter))
  return after.pass.target

def htmlText (template : Rendering) : RenderM τ String := do
  return (← write template).document.innerMarkup MarkupWriter.root

def attributesLine (attributes : List (String × String)) : String :=
  " ".intercalate
    ((attributes.map fun (name, value) => name ++ "=" ++ value).mergeSort fun a b => decide (a ≤ b))

def attributesText (template : Rendering) : RenderM τ String := do
  let written ← write fun σ => do
    let _ ← openElement "div" ""
    template σ
    emit .applyAttributes
    emit .closeElement
  match (written.document.children MarkupWriter.root).head? with
  | some element => return attributesLine (written.document.attributes element)
  | none => return ""

def renderedText (kind : RenderedKind) (template : Rendering) : RenderM τ String :=
  match kind with
  | .html => htmlText template
  | .attributes => attributesText template

end KeyedRender.RenderM
