import KeyedRender.Component.Basic
import KeyedRender.Key.Stack
import KeyedRender.Target.Basic

/-!
# Renderers

A pass drives a target and keeps the composite key, the logger, and the components to
synchronize after it. Layers may lie over the pass: a muted layer keeps keys and logging of its
own and hides the target, and a probe only remembers whether anything would have been rendered.
The topmost layer answers every call.
-/
namespace KeyedRender

abbrev LoggerId := Nat

inductive Layer
  | muted (keys : Key.Stack) (logger : Option LoggerId)
  | probe (rendered : Bool)
deriving DecidableEq

def Layer.isMuted : Layer → Bool
  | muted _ _ => true
  | probe _ => false

structure Pass (τ : Type) where
  target : τ
  keys : Key.Stack
  logger : Option LoggerId
  queue : List ComponentId

structure Renderer (τ : Type) where
  pass : Pass τ
  layers : List Layer

inductive RendererKind
  | default
  | muted
  | probe
deriving DecidableEq

namespace Renderer

variable {τ : Type}

def start (target : τ) : Renderer τ := ⟨⟨target, .empty, none, []⟩, []⟩

def kind (r : Renderer τ) : RendererKind :=
  match r.layers with
  | [] => .default
  | .muted _ _ :: _ => .muted
  | .probe _ :: _ => .probe

def push (layer : Layer) (r : Renderer τ) : Renderer τ := { r with layers := layer :: r.layers }

def pop (r : Renderer τ) : Renderer τ := { r with layers := r.layers.tail }

def didRender (r : Renderer τ) : Bool :=
  match r.layers with
  | .probe rendered :: _ => rendered
  | _ => false

def markRendered (r : Renderer τ) : Renderer τ :=
  match r.layers with
  | .probe _ :: below => { r with layers := .probe true :: below }
  | _ => r

/-- The key stack in force; a probe has none. -/
def keys? (r : Renderer τ) : Option Key.Stack :=
  match r.layers with
  | [] => some r.pass.keys
  | .muted keys _ :: _ => some keys
  | .probe _ :: _ => none

def changeKeys (change : Key.Stack → Key.Stack) (r : Renderer τ) : Renderer τ :=
  match r.layers with
  | [] => { r with pass := { r.pass with keys := change r.pass.keys } }
  | .muted keys logger :: below => { r with layers := .muted (change keys) logger :: below }
  | .probe _ :: _ => r

def currentKey (r : Renderer τ) : String := ((r.keys?).map Key.Stack.current).getD ""

def newKey (r : Renderer τ) (fragment : Key.Fragment) : String :=
  ((r.keys?).map fun keys => keys.newKey fragment).getD ""

def logger? (r : Renderer τ) : Option LoggerId :=
  match r.layers with
  | [] => r.pass.logger
  | .muted _ logger :: _ => logger
  | .probe _ :: _ => none

def setLogger (logger : Option LoggerId) (r : Renderer τ) : Renderer τ :=
  match r.layers with
  | [] => { r with pass := { r.pass with logger := logger } }
  | .muted keys _ :: below => { r with layers := .muted keys logger :: below }
  | .probe _ :: _ => r

/-- Gives the logger of a muted layer to the renderer below it. -/
def handBackLogger (r : Renderer τ) : Renderer τ :=
  match r.layers with
  | .muted keys logger :: below =>
    ({ r with layers := below }.setLogger logger).push (.muted keys logger)
  | _ => r

/-- Queues a component once; muted layers pass it down and a probe drops it. -/
def enqueue (id : ComponentId) (r : Renderer τ) : Renderer τ :=
  if r.layers.all Layer.isMuted && !r.pass.queue.contains id then
    { r with pass := { r.pass with queue := r.pass.queue ++ [id] } }
  else r

def clearQueue (r : Renderer τ) : Renderer τ := { r with pass := { r.pass with queue := [] } }

def setTarget (target : τ) (r : Renderer τ) : Renderer τ :=
  { r with pass := { r.pass with target := target } }

def target? (r : Renderer τ) : Option τ := if r.layers.isEmpty then some r.pass.target else none

def held [RenderTarget τ] (r : Renderer τ) : List ComponentId :=
  (RenderTarget.document r.pass.target).attached ++ r.pass.queue

section Updates

variable (r : Renderer τ)

@[simp] theorem length_layers_markRendered : r.markRendered.layers.length = r.layers.length := by
  rw [markRendered]
  split <;> simp_all

@[simp] theorem pass_markRendered : r.markRendered.pass = r.pass := by
  rw [markRendered]
  split <;> rfl

@[simp] theorem length_layers_changeKeys (change : Key.Stack → Key.Stack) :
    (r.changeKeys change).layers.length = r.layers.length := by
  rw [changeKeys]
  split <;> simp_all

@[simp] theorem target_changeKeys (change : Key.Stack → Key.Stack) :
    (r.changeKeys change).pass.target = r.pass.target := by
  rw [changeKeys]
  split <;> rfl

@[simp] theorem length_layers_setLogger (logger : Option LoggerId) :
    (r.setLogger logger).layers.length = r.layers.length := by
  rw [setLogger]
  split <;> simp_all

@[simp] theorem target_setLogger (logger : Option LoggerId) :
    (r.setLogger logger).pass.target = r.pass.target := by
  rw [setLogger]
  split <;> rfl

@[simp] theorem length_layers_handBackLogger :
    r.handBackLogger.layers.length = r.layers.length := by
  rw [handBackLogger]
  split
  · next hr => simp [push, hr]
  · rfl

@[simp] theorem target_handBackLogger : r.handBackLogger.pass.target = r.pass.target := by
  rw [handBackLogger]
  split
  · exact target_setLogger _ _
  · rfl

@[simp] theorem layers_enqueue (id : ComponentId) : (r.enqueue id).layers = r.layers := by
  rw [enqueue]
  split <;> rfl

@[simp] theorem target_enqueue (id : ComponentId) :
    (r.enqueue id).pass.target = r.pass.target := by
  rw [enqueue]
  split <;> rfl

@[simp] theorem currentKey_enqueue (id : ComponentId) :
    (r.enqueue id).currentKey = r.currentKey := by
  rw [enqueue]
  split <;> rfl

end Updates

end Renderer

end KeyedRender
