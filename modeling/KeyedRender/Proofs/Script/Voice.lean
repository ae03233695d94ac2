import KeyedRender.Script.Run

/-!
# What is heard of a script

The voice of a script is what it says to its loggers, together with the keys that it is told and
the errors that it fails with. Nothing is rendered: there is no target, no component is looked for,
and a renderer is nothing but its layers, the lowest of which stands for the pass. Content that is
turned into text is heard with keys of its own.
-/
namespace KeyedRender

open RenderM

/-- The steps whose answers come from keys and loggers alone. -/
def Instruction.isSpoken : Instruction → Bool
  | .pushKey _ => true
  | .newKey _ => true
  | .currentKey => true
  | .decodeCurrentKey => true
  | .verifyLogOnly _ => true
  | .evaluateLogging _ _ _ => true
  | .logger => true
  | _ => false

def Event.isSpoken : Event → Bool
  | .logger _ _ => true
  | .answer (.instruction i) _ => i.isSpoken
  | .answer (.block .attempt) _ => true
  | _ => false

def Instruction.IsRequeue : Instruction → Prop
  | .requeue _ => True
  | _ => False

/-- A script that neither mutes nor unmutes its renderer. -/
def Script.Stays : Script → Prop
  | .done => True
  | .step i next => i ≠ .toDefault ∧ next.Stays
  | .block b body next => b ≠ .muted ∧ body.Stays ∧ next.Stays
  | .component _ before body next => before.Stays ∧ body.Stays ∧ next.Stays

def Instruction.voice : Instruction → RenderM Unit (Option Answer)
  | .pushKey fragment => do
    let previous ← RenderM.pushKey fragment
    saveKey previous
    return some (.text previous)
  | .newKey fragment => do return some (.text ((← renderer).newKey fragment))
  | .currentKey => do return some (.text (← renderer).currentKey)
  | .decodeCurrentKey => do return some (.decoded (Key.decode (← renderer).currentKey))
  | .decodeKey encoded =>
    match (Key.decode encoded).failure with
    | some cause => fail (.keyDecode cause)
    | none => return none
  | .verifyLogOnly logOnly => do return some (.flag (← RenderM.verifyLogOnly logOnly))
  | .evaluateLogging name arguments placeholder => do
    return some (.text (← RenderM.evaluateLogging name arguments placeholder))
  | .logger => do return some (.logger (← logger?))
  | .pushManualKey fragment => do
    RenderM.pushManualKey fragment
    return none
  | .popManualKey => do
    RenderM.popManualKey
    return none
  | .popKey (some previous) => do
    RenderM.popKey previous
    return none
  | .popKey none => do
    RenderM.popKey (← takeSavedKey)
    return none
  | .enter element logOnly => do
    RenderM.enter element logOnly
    return none
  | .exit => do
    RenderM.exit
    return none
  | .setLogger new => do
    RenderM.setLogger new
    return none
  | _ => return none

def Renderer.aside (logger : Option LoggerId) : Renderer Unit :=
  (Renderer.start ()).push (.muted .empty logger)

namespace RenderM

def aside (m : RenderM Unit Unit) : RenderM Unit Unit := fun ctx s =>
  match m ctx ⟨.aside s.renderer.logger?, s.shared⟩ with
  | .done _ t => .done () { s with shared := t.shared }
  | .failed e t => .failed e { s with shared := t.shared }
  | .broken f => .broken f

def renders : RenderM Unit Bool := do
  return (← renderer).kind ≠ .probe

theorem renders_run (ctx : Context) (s : RenderState Unit) :
    renders ctx s = .done (decide (s.renderer.kind ≠ .probe)) s := rfl

end RenderM

def Block.voice (b : Block) (body : RenderM Unit Unit) : RenderM Unit Unit :=
  match b with
  | .openServerElement _ _ _ => do if ← renders then body
  | .attempt => do
    match ← RenderM.attempt body with
    | .ok () => log (.answer (.block .attempt) .done)
    | .error e => log (.answer (.block .attempt) (.failure e))
  | .probe => do let _ ← RenderM.probe body
  | .isTruthy => do let _ ← RenderM.probe body
  | .functionTruth _ => do let _ ← RenderM.probe body
  | .muted => RenderM.muted body
  | .shielded => RenderM.shielded body
  | .print => body
  | .printContent => body
  | .functionCall _ => body
  | .callHtml .html _ => body
  | .callAttributes .attributes _ _ => body
  | .printAttributes .attributes _ => body
  | .callHtml .attributes _ => aside body
  | .callAttributes .html _ _ => aside body
  | .printAttributes .html _ => aside body
  | .coerce _ => aside body
  | .callText _ _ _ => aside body
  | .callEscaped _ _ _ => aside body
  | .functionText _ => aside body

def ComponentSpec.rootVoice (spec : ComponentSpec) (before body : RenderM Unit Unit) :
    RenderM Unit Unit := do
  before
  match spec.root with
  | .text => pure ()
  | .bare _ => pure ()
  | _ => body

def ComponentSpec.voice (spec : ComponentSpec) (before body : RenderM Unit Unit) :
    RenderM Unit Unit := do
  if ← renders then spec.rootVoice before body

def Script.voice : Script → RenderM Unit Unit
  | .done => return ()
  | .step i next => do
    answer (.instruction i) (← i.voice)
    next.voice
  | .block b body next => do
    b.voice body.voice
    next.voice
  | .component spec before body next => do
    spec.voice before.voice body.voice
    next.voice

def RenderState.after (told : Array Event) (s : RenderState Unit) : RenderState Unit :=
  { s with shared := { s.shared with log := told ++ s.shared.log } }

def Outcome.after {α : Type} (told : Array Event) :
    Outcome (RenderState Unit) α → Outcome (RenderState Unit) α
  | .done a s => .done a (s.after told)
  | .failed e s => .failed e (s.after told)
  | .broken f => .broken f

def Forgets {α : Type} (m : RenderM Unit α) : Prop :=
  ∀ told ctx s, m ctx (s.after told) = (m ctx s).after told

namespace Forgets

variable {α β : Type} {m : RenderM Unit α}

theorem pure (a : α) : Forgets (Pure.pure a) := fun _ _ _ => rfl

theorem fail (e : RenderError) : Forgets (RenderM.fail e : RenderM Unit α) := fun _ _ _ => rfl

theorem bind {next : α → RenderM Unit β} (hm : Forgets m) (hn : ∀ a, Forgets (next a)) :
    Forgets (m >>= next) := by
  intro told ctx s
  rw [bind_run, bind_run, hm told ctx s]
  cases m ctx s with
  | done a t => exact hn a told ctx t
  | failed e t => rfl
  | broken f => rfl

theorem context : Forgets RenderM.context := fun _ _ _ => rfl

theorem renderer : Forgets RenderM.renderer := fun _ _ _ => rfl

theorem changeRenderer (change : Renderer Unit → Renderer Unit) :
    Forgets (RenderM.changeRenderer change) := fun _ _ _ => rfl

theorem log (event : Event) : Forgets (RenderM.log event) := by
  intro told ctx s
  simp only [RenderM.log, changeShared, RenderState.after, Outcome.after, Array.push_append]

theorem attempt (h : Forgets m) : Forgets (RenderM.attempt m) := by
  intro told ctx s
  unfold RenderM.attempt
  rw [h told ctx s]
  cases m ctx s <;> rfl

theorem resume (result : Except RenderError α) : Forgets (RenderM.resume result) := by
  cases result with
  | ok a => exact pure a
  | error e => exact fail e

theorem layered (layer : Layer) (h : Forgets m) : Forgets (RenderM.layered layer m) :=
  .bind (changeRenderer _) fun _ => h.attempt.bind fun _ => .bind renderer fun _ =>
    .bind (changeRenderer _) fun _ => pure _

theorem logger? : Forgets RenderM.logger? := renderer.bind fun _ => pure _

theorem shielded (h : Forgets m) : Forgets (RenderM.shielded m) :=
  logger?.bind fun _ => .bind (h.layered _) fun _ => resume _

theorem muted (h : Forgets m) : Forgets (RenderM.muted m) :=
  renderer.bind fun r => by
    cases r.kind with
    | default => exact h.shielded
    | muted => exact fail _
    | probe => exact h

theorem probe {m : RenderM Unit Unit} (h : Forgets m) : Forgets (RenderM.probe m) :=
  .bind (h.layered _) fun _ => .bind (resume _) fun _ => pure _

theorem aside {m : RenderM Unit Unit} (h : Forgets m) : Forgets (RenderM.aside m) := by
  intro told ctx s
  have hm := h told ctx ⟨.aside s.renderer.logger?, s.shared⟩
  unfold RenderM.aside
  simp only [RenderState.after] at hm ⊢
  rw [hm]
  cases m ctx ⟨.aside s.renderer.logger?, s.shared⟩ <;> rfl

theorem callLogger (call : LoggerCall) : Forgets (RenderM.callLogger call) :=
  logger?.bind fun logger => by
    cases logger with
    | none => exact pure _
    | some logger => exact log _

theorem answer (question : Question) (a : Option Answer) : Forgets (RenderM.answer question a) := by
  cases a with
  | none => exact pure _
  | some a => exact log _

theorem renders : Forgets RenderM.renders := renderer.bind fun _ => pure _

theorem instruction (i : Instruction) : Forgets i.voice := by
  cases i with
  | pushKey fragment => exact fun _ _ _ => rfl
  | newKey fragment => exact renderer.bind fun _ => pure _
  | currentKey => exact renderer.bind fun _ => pure _
  | decodeCurrentKey => exact renderer.bind fun _ => pure _
  | decodeKey encoded =>
    simp only [Instruction.voice]
    cases (Key.decode encoded).failure with
    | some cause => exact fail _
    | none => exact pure _
  | verifyLogOnly logOnly =>
    refine .bind (renderer.bind fun r => ?_) fun _ => pure _
    split
    · exact fail _
    · split
      · exact fail _
      · exact pure _
  | evaluateLogging name arguments placeholder =>
    refine .bind (logger?.bind fun logger => ?_) fun _ => pure _
    cases logger with
    | none => exact pure _
    | some logger => exact (log _).bind fun _ => context.bind fun _ => pure _
  | logger => exact logger?.bind fun _ => pure _
  | pushManualKey fragment => exact (changeRenderer _).bind fun _ => pure _
  | popManualKey => exact (changeRenderer _).bind fun _ => pure _
  | popKey previous? =>
    cases previous? with
    | some previous => exact (changeRenderer _).bind fun _ => pure _
    | none => exact fun _ _ _ => rfl
  | enter element logOnly => exact (callLogger _).bind fun _ => pure _
  | exit => exact (callLogger _).bind fun _ => pure _
  | setLogger logger => exact (changeRenderer _).bind fun _ => pure _
  | _ => exact pure _

theorem block (b : Block) {v : RenderM Unit Unit} (h : Forgets v) : Forgets (b.voice v) := by
  cases b with
  | openServerElement name key parameters =>
    refine renders.bind fun rendered => ?_
    cases rendered with
    | true => exact h
    | false => exact pure _
  | attempt =>
    refine h.attempt.bind fun result => ?_
    cases result <;> exact log _
  | probe => exact h.probe.bind fun _ => pure _
  | isTruthy => exact h.probe.bind fun _ => pure _
  | functionTruth kind => exact h.probe.bind fun _ => pure _
  | muted => exact h.muted
  | shielded => exact h.shielded
  | print => exact h
  | printContent => exact h
  | functionCall kind => exact h
  | callHtml kind parameter =>
    cases kind with
    | html => exact h
    | attributes => exact h.aside
  | callAttributes kind parameter filter =>
    cases kind with
    | html => exact h.aside
    | attributes => exact h
  | printAttributes kind filter =>
    cases kind with
    | html => exact h.aside
    | attributes => exact h
  | coerce kind => exact h.aside
  | callText kind parameter escaper => exact h.aside
  | callEscaped kind parameter escaper => exact h.aside
  | functionText kind => exact h.aside

theorem component (spec : ComponentSpec) {before body : RenderM Unit Unit} (hbefore : Forgets before)
    (hbody : Forgets body) : Forgets (spec.voice before body) := by
  have hroot : Forgets (spec.rootVoice before body) := by
    refine hbefore.bind fun _ => ?_
    cases spec.root with
    | text => exact pure _
    | bare node => exact pure _
    | _ => exact hbody
  refine renders.bind fun rendered => ?_
  cases rendered with
  | true => exact hroot
  | false => exact pure _

end Forgets

theorem Script.forgets_voice (script : Script) : Forgets script.voice := by
  induction script with
  | done => exact .pure _
  | step i next ih => exact (Forgets.instruction i).bind fun _ => (Forgets.answer _ _).bind fun _ => ih
  | block b body next ihbody ih => exact (Forgets.block b ihbody).bind fun _ => ih
  | component spec before body next ihbefore ihbody ih =>
    exact (Forgets.component spec ihbefore ihbody).bind fun _ => ih

end KeyedRender
