import KeyedRender.Script.Run
import KeyedRender.Target.KeyedDom

/-!
# Sessions

A session is a target and the components created on it, carried from pass to pass. A pass is
either bracketed by the target's own beginning and end, or driven directly, in two parts with the
queue emptied after each. Between passes the tree can be edited and looked at; a component is
alive then if it is attached to a node that is there.
-/
namespace KeyedRender

structure Settings where
  parameter : String
  injected : Payload
  evaluate : LoggerId → String → List Payload → String
  stampsKeys : Bool

def loggedText (logger : LoggerId) (name : String) (arguments : List Payload) : String :=
  s!"{name}@{logger}({arguments.length})"

inductive PassPlan
  | bracketed (root : NodeId) (mode : PatchMode) (rule : Key.MatchRule) (logger : Option LoggerId)
      (script : Script)
  | direct (root : NodeId) (begins : Bool) (logger : Option LoggerId) (first second : Script)

namespace RenderM

variable {τ : Type} [RenderTarget τ]

def logQueueLength : RenderM τ Unit := do
  log (.queueLength (← renderer).pass.queue.length)

/-- Runs two templates on one renderer, the second only if the first succeeds. -/
def direct (root : NodeId) (begins : Bool) (logger : Option LoggerId)
    (first second : RenderM τ Unit) : RenderM τ Unit := do
  if begins then
    let _ ← callTarget (.beginPatch root .inner .keyed)
  setLogger logger
  let result ← attempt first
  logQueueLength
  flushQueue
  logQueueLength
  let final ← match result with
    | .ok () => attempt second
    | .error e => pure (.error e)
  logQueueLength
  flushQueue
  resume final

end RenderM

def PassPlan.perform (plan : PassPlan) : Rendering := fun σ _ =>
  match plan with
  | .bracketed root mode rule logger script =>
    RenderM.patch root mode rule logger (script.run σ)
  | .direct root begins logger first second =>
    RenderM.direct root begins logger (first.run σ) (second.run σ)

structure PassReport where
  error : Option RenderError
  events : List Event

structure Session (τ : Type) where
  target : τ
  registry : Registry

namespace Session

variable {τ : Type} [RenderTarget τ]

def start (target : τ) : Session τ := ⟨target, .empty⟩

def context (settings : Settings) : Context :=
  ⟨settings.parameter, settings.injected, [], [], true, settings.evaluate, settings.stampsKeys⟩

def finish (error : Option RenderError) (s : RenderState τ) : PassReport × Session τ :=
  (⟨error, s.shared.log.toList⟩, ⟨s.renderer.pass.target, s.shared.registry⟩)

def pass (settings : Settings) (plan : PassPlan) (s : Session τ) :
    Except Fault (PassReport × Session τ) :=
  match plan.perform τ (context settings) ⟨.start s.target, ⟨s.registry, [], #[]⟩⟩ with
  | .done () t => .ok (finish none t)
  | .failed e t => .ok (finish (some e) t)
  | .broken f => .error f

def call (targetCall : TargetCall) (s : Session τ) : Except Fault (Option NodeId × Session τ) := do
  let (node, target) ← RenderTarget.apply targetCall s.target
  return (node, { s with target := target })

def inspect (node : NodeId) (s : Session τ) : Except Fault Inspection :=
  RenderM.inspectTarget s.target node

def reports (s : Session τ) : List ComponentReport :=
  let attached := (RenderTarget.document s.target).attached
  s.registry.reports attached.contains

def append (parent : NodeId) (content : Content) (s : Session KeyedDom) :
    Except Fault (NodeId × Session KeyedDom) := do
  let (node, target) ← s.target.append parent content
  return (node, { s with target := target })

def remove (node : NodeId) (s : Session KeyedDom) : Except Fault (Session KeyedDom) := do
  return { s with target := ← s.target.remove node }

end Session

def probeScript (settings : Settings) (script : Script) : Except Fault (Bool × PassReport) :=
  let state : RenderState MarkupWriter := ⟨.start .new, ⟨.empty, [], #[]⟩⟩
  let probing := RenderM.layered (.probe false) (script.run MarkupWriter)
  match probing (Session.context settings) state with
  | .done (.ok (), rendered) t => .ok (rendered, (Session.finish none t).1)
  | .done (.error e, rendered) t => .ok (rendered, (Session.finish (some e) t).1)
  | .failed e t => .ok (false, (Session.finish (some e) t).1)
  | .broken f => .error f

end KeyedRender
