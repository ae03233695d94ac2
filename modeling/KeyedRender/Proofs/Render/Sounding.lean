import KeyedRender.Proofs.Script.Trail
import KeyedRender.Proofs.Script.Voice

/-!
# What is heard of a renderer

A renderer is heard through its layers; the pass, if calls can reach it, sounds like one more muted
layer below them. Neither its target nor its components are heard, nor whether anything was rendered
under a probe.
-/
namespace KeyedRender

open RenderTarget (apply)

def Layer.hush : Layer → Layer
  | .probe _ => .probe false
  | .muted keys logger => .muted keys logger

section

variable {τ : Type}

namespace Renderer

/-- A covered renderer has a layer of its own at the bottom, and calls never reach its target. -/
def voice (covered : Bool) (r : Renderer τ) : Renderer Unit :=
  { start () with
    layers := (r.layers ++ if covered then [] else [Layer.muted r.pass.keys r.pass.logger]).map
      Layer.hush }

variable {covered : Bool} {r : Renderer τ}

@[simp] theorem voice_markRendered : r.markRendered.voice covered = r.voice covered := by
  obtain ⟨pass, _ | ⟨_ | _, below⟩⟩ := r <;> rfl

@[simp] theorem voice_enqueue (id : ComponentId) :
    (r.enqueue id).voice covered = r.voice covered := by
  unfold enqueue
  split <;> rfl

theorem voice_pop (h : r.layers ≠ []) : r.pop.voice covered = (r.voice covered).pop := by
  obtain ⟨pass, _ | ⟨layer, below⟩⟩ := r
  · exact absurd rfl h
  · rfl

section Spoken

variable (h : covered = true → r.layers ≠ [])
include h

theorem kind_voice : (r.voice covered).kind = .probe ↔ r.kind = .probe := by
  obtain ⟨pass, _ | ⟨_ | _, below⟩⟩ := r
  · cases covered with
    | true => exact absurd rfl (h rfl)
    | false => simp [voice, kind, Layer.hush]
  · simp [voice, kind, Layer.hush]
  · simp [voice, kind, Layer.hush]

theorem keys?_voice : (r.voice covered).keys? = r.keys? := by
  obtain ⟨pass, _ | ⟨_ | _, below⟩⟩ := r
  · cases covered with
    | true => exact absurd rfl (h rfl)
    | false => rfl
  · rfl
  · rfl

theorem currentKey_voice : (r.voice covered).currentKey = r.currentKey := by
  rw [currentKey, keys?_voice h, currentKey]

theorem newKey_voice (fragment : Key.Fragment) :
    (r.voice covered).newKey fragment = r.newKey fragment := by
  rw [newKey, keys?_voice h, newKey]

theorem logger?_voice : (r.voice covered).logger? = r.logger? := by
  obtain ⟨pass, _ | ⟨_ | _, below⟩⟩ := r
  · cases covered with
    | true => exact absurd rfl (h rfl)
    | false => rfl
  · rfl
  · rfl

theorem voice_changeKeys (change : Key.Stack → Key.Stack) :
    (r.changeKeys change).voice covered = (r.voice covered).changeKeys change := by
  obtain ⟨pass, _ | ⟨_ | _, below⟩⟩ := r
  · cases covered with
    | true => exact absurd rfl (h rfl)
    | false => rfl
  · simp [voice, changeKeys, Layer.hush]
  · simp [voice, changeKeys, Layer.hush]

theorem voice_setLogger (logger : Option LoggerId) :
    (r.setLogger logger).voice covered = (r.voice covered).setLogger logger := by
  obtain ⟨pass, _ | ⟨_ | _, below⟩⟩ := r
  · cases covered with
    | true => exact absurd rfl (h rfl)
    | false => rfl
  · simp [voice, setLogger, Layer.hush]
  · simp [voice, setLogger, Layer.hush]

end Spoken

end Renderer

def Shared.voice (sh : Shared) : Shared :=
  ⟨.empty, sh.savedKeys, (sh.log.toList.filter Event.isSpoken).toArray⟩

@[simp] theorem Shared.voice_changeRegistry (sh : Shared) (change : Registry → Registry) :
    (sh.changeRegistry change).voice = sh.voice := rfl

theorem Shared.voice_push (sh : Shared) (event : Event) :
    Shared.voice { sh with log := sh.log.push event } =
      if event.isSpoken then { sh.voice with log := sh.voice.log.push event } else sh.voice := by
  simp only [voice, Array.toList_push, List.filter_append]
  split
  · next h => simp [h]
  · next h => simp [h]

theorem RenderM.callTarget_voice [RenderTarget τ] (ctx : Context) {s : RenderState τ}
    {call : TargetCall} {node : Option NodeId} {target : τ}
    (h : apply call s.renderer.pass.target = .ok (node, target)) :
    ∃ log, RenderM.callTarget call ctx s =
        .done node ⟨s.renderer.setTarget target, { s.shared with log := log }⟩ ∧
      Shared.voice { s.shared with log := log } = s.shared.voice := by
  refine ⟨if ctx.watched then s.shared.log.push (.target call) else s.shared.log, ?_, ?_⟩
  · simp only [RenderM.callTarget, h]
  · split
    · exact Shared.voice_push s.shared (.target call)
    · rfl

def RenderState.voice (covered : Bool) (s : RenderState τ) : RenderState Unit :=
  ⟨s.renderer.voice covered, s.shared.voice⟩

def Context.voice (ctx : Context) : Context := ⟨"", .null, [], [], false, ctx.evaluate, false⟩

end

end KeyedRender
