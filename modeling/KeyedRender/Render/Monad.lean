import KeyedRender.Render.Event

/-!
# Rendering

A rendering reads a context and changes a state: the renderer, and what all renderers of a
session share. It ends with a value, with an error that keeps the state reached so far, or with a
fault that ends everything. Errors can be caught, faults cannot.
-/
namespace KeyedRender

structure Shared where
  registry : Registry
  /-- Keys to restore after calls, the latest first. -/
  savedKeys : List String
  log : Array Event

structure RenderState (τ : Type) where
  renderer : Renderer τ
  shared : Shared

structure Context where
  parameter : String
  injected : Payload
  rendering : List ComponentId
  /-- The components that suspended renderers keep alive. -/
  pinned : List ComponentId
  watched : Bool
  evaluate : LoggerId → String → List Payload → String
  /-- Whether the keys of server-rendered elements are written on them, for debugging. -/
  stampsKeys : Bool

inductive Outcome (σ α : Type)
  | done (value : α) (state : σ)
  | failed (error : RenderError) (state : σ)
  | broken (fault : Fault)

def RenderM (τ α : Type) : Type := Context → RenderState τ → Outcome (RenderState τ) α

namespace RenderM

variable {τ α β : Type}

protected def pure (a : α) : RenderM τ α := fun _ s => .done a s

protected def bind (m : RenderM τ α) (next : α → RenderM τ β) : RenderM τ β := fun ctx s =>
  match m ctx s with
  | .done a t => next a ctx t
  | .failed e t => .failed e t
  | .broken f => .broken f

instance : Monad (RenderM τ) where
  pure := RenderM.pure
  bind := RenderM.bind

theorem pure_run (a : α) (ctx : Context) (s : RenderState τ) :
    (pure a : RenderM τ α) ctx s = .done a s := rfl

theorem bind_run (m : RenderM τ α) (next : α → RenderM τ β) (ctx : Context)
    (s : RenderState τ) :
    (m >>= next) ctx s =
      match m ctx s with
      | .done a t => next a ctx t
      | .failed e t => .failed e t
      | .broken f => .broken f := rfl

instance : LawfulMonad (RenderM τ) :=
  LawfulMonad.mk' _
    (fun m => by
      funext ctx s
      change (match m ctx s with
        | .done a t => Outcome.done a t
        | .failed e t => .failed e t
        | .broken f => .broken f) = m ctx s
      cases m ctx s <;> rfl)
    (fun _ _ => rfl)
    (fun m _ _ => by
      funext ctx s
      simp only [bind_run]
      cases m ctx s <;> rfl)

def context : RenderM τ Context := fun ctx s => .done ctx s

def state : RenderM τ (RenderState τ) := fun _ s => .done s s

def renderer : RenderM τ (Renderer τ) := fun _ s => .done s.renderer s

def changeRenderer (change : Renderer τ → Renderer τ) : RenderM τ Unit := fun _ s =>
  .done () { s with renderer := change s.renderer }

def changeShared (change : Shared → Shared) : RenderM τ Unit := fun _ s =>
  .done () { s with shared := change s.shared }

def changeRegistry (change : Registry → Registry) : RenderM τ Unit :=
  changeShared fun shared => { shared with registry := change shared.registry }

def log (event : Event) : RenderM τ Unit :=
  changeShared fun shared => { shared with log := shared.log.push event }

def fail (error : RenderError) : RenderM τ α := fun _ s => .failed error s

def breakWith (fault : Fault) : RenderM τ α := fun _ _ => .broken fault

def withContext (change : Context → Context) (m : RenderM τ α) : RenderM τ α := fun ctx s =>
  m (change ctx) s

def attempt (m : RenderM τ α) : RenderM τ (Except RenderError α) := fun ctx s =>
  match m ctx s with
  | .done a t => .done (.ok a) t
  | .failed e t => .done (.error e) t
  | .broken f => .broken f

def resume : Except RenderError α → RenderM τ α
  | .ok a => pure a
  | .error e => fail e

/-- Runs with a layer over the renderer and takes it off again, and says whether the layer was a
probe under which something was rendered. -/
def layered (layer : Layer) (m : RenderM τ α) : RenderM τ (Except RenderError α × Bool) := do
  changeRenderer (Renderer.push layer)
  let result ← attempt m
  let rendered := (← renderer).didRender
  changeRenderer Renderer.pop
  return (result, rendered)

/-- Runs with a renderer of its own while the present one is suspended, and gives back the
renderer reached. Calls of the other target are not logged. -/
def detour [RenderTarget τ] {σ : Type} (start : Renderer σ) (m : RenderM σ α) :
    RenderM τ (α × Renderer σ) := fun ctx s =>
  let inside := { ctx with watched := false, pinned := s.renderer.held ++ ctx.pinned }
  match m inside ⟨start, s.shared⟩ with
  | .done a t => .done (a, t.renderer) { s with shared := t.shared }
  | .failed e t => .failed e { s with shared := t.shared }
  | .broken f => .broken f

end RenderM

abbrev Rendering := (τ : Type) → [RenderTarget τ] → RenderM τ Unit

end KeyedRender
