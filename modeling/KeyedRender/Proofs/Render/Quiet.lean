import KeyedRender.Proofs.Render.Triple
import KeyedRender.Script.Run
import KeyedRender.Session

/-!
# Quiet steps

A step is quiet if it succeeds and leaves the target, the registry and the number of layers alone:
reading, keys, logging and the queue.
-/
namespace KeyedRender

variable {τ α β : Type}

def Quiet (m : RenderM τ α) : Prop :=
  ∀ (x : Exits τ) (P : Condition τ), Triple x P m fun _ => P

namespace Quiet

open RenderM

theorem triple {m : RenderM τ α} (h : Quiet m) {x : Exits τ} {P : Condition τ} :
    Triple x P m fun _ => P := h x P

theorem pure {a : α} : Quiet (Pure.pure a : RenderM τ α) := fun _ _ => .pure fun _ _ hp => hp

theorem bind {m : RenderM τ α} {next : α → RenderM τ β} (hm : Quiet m) (hn : ∀ a, Quiet (next a)) :
    Quiet (m >>= next) := fun x P => .bind (hm x P) fun a => hn a x P

theorem renderer : Quiet (RenderM.renderer (τ := τ)) := fun _ _ _ _ hl hp => ⟨hl, hp⟩

theorem state : Quiet (RenderM.state (τ := τ)) := fun _ _ _ _ hl hp => ⟨hl, hp⟩

theorem context : Quiet (RenderM.context (τ := τ)) := fun _ _ => .context

theorem log {event : Event} : Quiet (RenderM.log (τ := τ) event) := fun _ _ => .log

theorem changeKeys (change : Key.Stack → Key.Stack) :
    Quiet (RenderM.changeRenderer (τ := τ) (Renderer.changeKeys change)) := fun _ _ =>
  .changeRenderer (Renderer.length_layers_changeKeys · change) (Renderer.target_changeKeys · change)

theorem pushKey (fragment : Key.Fragment) : Quiet (RenderM.pushKey (τ := τ) fragment) :=
  renderer.bind fun _ => (changeKeys _).bind fun _ => pure

theorem popKey (previous : String) : Quiet (RenderM.popKey (τ := τ) previous) := changeKeys _

theorem pushManualKey (fragment : Key.Fragment) :
    Quiet (RenderM.pushManualKey (τ := τ) fragment) := changeKeys _

theorem popManualKey : Quiet (RenderM.popManualKey (τ := τ)) := changeKeys _

theorem markRendered : Quiet (RenderM.changeRenderer (τ := τ) Renderer.markRendered) :=
  fun _ _ => .changeRenderer Renderer.length_layers_markRendered fun _ => by simp

theorem setLogger (logger : Option LoggerId) : Quiet (RenderM.setLogger (τ := τ) logger) :=
  fun _ _ => .changeRenderer (Renderer.length_layers_setLogger · logger)
    (Renderer.target_setLogger · logger)

theorem handBackLogger : Quiet (RenderM.changeRenderer (τ := τ) Renderer.handBackLogger) :=
  fun _ _ => .changeRenderer Renderer.length_layers_handBackLogger Renderer.target_handBackLogger

theorem logger? : Quiet (RenderM.logger? (τ := τ)) := renderer.bind fun _ => pure

theorem callLogger (call : LoggerCall) : Quiet (RenderM.callLogger (τ := τ) call) := by
  refine logger?.bind fun logger => ?_
  cases logger with
  | none => exact pure
  | some logger => exact log

theorem evaluateLogging (name : String) (arguments : List Payload) (placeholder : String) :
    Quiet (RenderM.evaluateLogging (τ := τ) name arguments placeholder) := by
  refine logger?.bind fun logger => ?_
  cases logger with
  | none => exact pure
  | some logger => exact log.bind fun _ => context.bind fun _ => pure

theorem enqueue (id : ComponentId) : Quiet (RenderM.enqueue (τ := τ) id) := fun _ _ =>
  .changeRenderer (fun _ => by rw [Renderer.layers_enqueue]) (Renderer.target_enqueue · id)

theorem templateText (template : TextTemplate) :
    Quiet (RenderM.templateText (τ := τ) template) := context.bind fun _ => pure

theorem answer (question : Question) (a : Option Answer) :
    Quiet (RenderM.answer (τ := τ) question a) := by
  cases a with
  | none => exact pure
  | some a => exact log

theorem saveKey (key : String) : Quiet (RenderM.saveKey (τ := τ) key) := fun _ _ =>
  .changeShared fun _ => rfl

theorem takeSavedKey : Quiet (RenderM.takeSavedKey (τ := τ)) := by
  refine state.bind fun s => bind (fun _ _ => ?_) fun _ => pure
  exact .changeShared fun _ => rfl

section Target

variable [RenderTarget τ]

theorem pointer? : Quiet (RenderM.pointer? (τ := τ)) := renderer.bind fun _ => pure

theorem current? : Quiet (RenderM.current? (τ := τ)) := renderer.bind fun _ => pure

theorem targetDocument : Quiet (RenderM.targetDocument (τ := τ)) := renderer.bind fun _ => pure

theorem liveComponents : Quiet (RenderM.liveComponents (τ := τ)) :=
  context.bind fun _ => renderer.bind fun _ => pure

theorem requeue (index : Nat) : Quiet (RenderM.requeue (τ := τ) index) := by
  refine state.bind fun s => ?_
  split
  · exact pure
  · refine liveComponents.bind fun ids => ?_
    split
    · exact (enqueue _).bind fun _ => pure
    · exact pure

end Target

end Quiet

end KeyedRender
