import KeyedRender.Render.Renderer
import KeyedRender.Script.Basic
import KeyedRender.Text.Basic
import KeyedRender.Text.Quoted

/-!
# Events

What happens during a pass, in order: calls that reach the target, calls of a logger, and the
answers to the steps of a script. Synchronizing a component and the length of the queue are
events too. An answer may show a node as its target sees it, with the record of an element in a form
for reading: texts are given by their length in bytes and a component by its tag and key.
-/
namespace KeyedRender

def lengthText : Option String → String
  | none => "None"
  | some text => s!"Some({Text.bytes text.toList})"

def ComponentSlot.summary (s : ComponentSlot) : String :=
  "ElementSlot \x7b kind: ComponentKind(" ++ String.ofList (Text.quoted '"' s.tag.toList) ++
    "), key: " ++ String.ofList (Text.quoted '"' s.key.toList) ++ ", .. \x7d"

def NodeRecord.summary (r : NodeRecord) : String :=
  let slot := match r.slot with
    | none => "None"
    | some s => "Some(" ++ s.summary ++ ")"
  "NodeData \x7b last_params: " ++ lengthText r.skipParameters ++ ", element: " ++ slot ++
    ", inner_html: " ++ lengthText r.blob ++ " \x7d"

structure Inspection where
  hasContent : Bool
  nextSibling : Option NodeId
  isComment : Bool
  record : Option NodeRecord
  description : String

inductive LoggerCall
  | enter (metadata : ElementMetadata)
  | exit
  | evaluate (name : String) (arguments : List Payload)

inductive Answer
  | node (node : Option NodeId)
  | text (value : String)
  | texts (values : List String)
  | flag (value : Bool)
  | done
  | failure (error : RenderError)
  | kind (kind : RendererKind)
  | content (kind : ContentKind)
  | decoded (decoded : Key.Decoded)
  | logger (logger : Option LoggerId)
  | component (report : Option ComponentReport)
  | requeued (wasLive : Option Bool)
  | inspection (inspection : Inspection)
  | noTarget

inductive Question
  | instruction (instruction : Instruction)
  | block (block : Block)
  | component (spec : ComponentSpec)

inductive Event
  | target (call : TargetCall)
  | logger (logger : LoggerId) (call : LoggerCall)
  | answer (question : Question) (answer : Answer)
  | queueLength (count : Nat)
  | synchronized (component : ComponentId)

end KeyedRender
