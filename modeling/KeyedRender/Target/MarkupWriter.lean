import KeyedRender.Document.Markup
import KeyedRender.Target.Basic

/-!
# The markup target

A document that only grows, for turning content into text. Nothing is matched or found again:
every element that is opened is a new child of the innermost open one, and there is never a node at
the pointer. Skipping has no effect.
-/
namespace KeyedRender

structure MarkupWriter where
  document : Document
  opened : List NodeId

namespace MarkupWriter

def root : NodeId := 0

/-- The root stays open, below all that is opened. The innermost element comes first. -/
def new : MarkupWriter := ⟨.single "div", [root]⟩

def current? (w : MarkupWriter) : Option NodeId := w.opened.head?

def setDocument (w : MarkupWriter) (d : Document) : MarkupWriter := { w with document := d }

def appendTo (w : MarkupWriter) (parent : Option NodeId) (content : Content) :
    NodeId × MarkupWriter :=
  let (id, document) := w.document.add parent content
  (id, w.setDocument <| match parent with
    | some parent => document.updateElement parent fun e => { e with children := e.children ++ [id] }
    | none => document)

def append (w : MarkupWriter) (content : Content) : NodeId × MarkupWriter :=
  w.appendTo w.current? content

def openElement (w : MarkupWriter) (name : String) : NodeId × MarkupWriter :=
  let (id, w) := w.append (.element (.new name ""))
  (id, { w with opened := id :: w.opened })

def closeElement (w : MarkupWriter) : Option NodeId × MarkupWriter :=
  if w.opened.length ≤ 1 then (none, w)
  else (w.opened.head?, { w with opened := w.opened.tail })

/-- Only the outermost element stays open. -/
def closeAll (w : MarkupWriter) : MarkupWriter :=
  { w with opened := w.opened.drop (w.opened.length - 1) }

def setAttribute (w : MarkupWriter) (name value : String) : MarkupWriter :=
  match w.current? with
  | some current =>
    w.setDocument (w.document.updateElement current (Element.setAttribute name value))
  | none => w

/-- The children stay, but raw markup is written in their place. -/
def setInnerMarkup (w : MarkupWriter) (id : NodeId) (markup : String) : MarkupWriter :=
  w.setDocument (w.document.updateElement id fun e => { e with raw := some markup })

def appendComment (w : MarkupWriter) (parent : NodeId) (value : String) :
    Option NodeId × MarkupWriter :=
  if (w.document.element? parent).isSome then
    let (id, w) := w.appendTo (some parent) (.comment value)
    (some id, w)
  else (none, w)

/-- Elements left open by one pass are closed before the next. -/
def step : TargetCall → MarkupWriter → Option NodeId × MarkupWriter
  | .beginPatch _ _ _, w => (none, w.closeAll)
  | .endPatch, w => (none, w.closeAll)
  | .openElement name _, w => let (id, w) := w.openElement name; (some id, w)
  | .closeElement, w => w.closeElement
  | .text value, w => let (id, w) := w.append (.text value); (some id, w)
  | .setAttribute name value, w => (none, w.setAttribute name value)
  | .setProperty _ _, w => (none, w)
  | .skip, w => (none, w)
  | .skipNode, w => (none, w)
  | .applyAttributes, w => (none, w)
  | .applyStatics attributes, w =>
    (none, attributes.foldl (fun w (name, value) => w.setAttribute name value) w)
  | .setInnerMarkup id markup, w => (none, w.setInnerMarkup id markup)
  | .setComment id value, w => (none, w.setDocument (w.document.setComment id value))
  | .appendComment parent value, w => w.appendComment parent value

instance : RenderTarget MarkupWriter where
  apply := fun call w => .ok (w.step call)
  document := MarkupWriter.document
  withDocument := setDocument
  pointer? := fun _ => none
  current? := current?
  hasContent := fun w id => .ok (!(w.document.children id).isEmpty)
  describe := fun w id => .ok (w.document.outerMarkup id)

end MarkupWriter

end KeyedRender
