import KeyedRender.Render.Component
import KeyedRender.Render.Content

/-!
# Running scripts

A script runs step by step until one fails, on any target. Each step that has an answer logs it
when it is done, except that a server-rendered element is logged before its content.
-/
namespace KeyedRender

open RenderM (callTarget renderer context log changeShared changeRenderer)

variable {τ : Type} [RenderTarget τ]

namespace RenderM

def answer (question : Question) : Option Answer → RenderM τ Unit
  | some a => log (.answer question a)
  | none => return ()

def inspectTarget (target : τ) (node : NodeId) : Except Fault Inspection := do
  let d := RenderTarget.document target
  let hasContent ← RenderTarget.hasContent target node
  let description ← RenderTarget.describe target node
  return ⟨hasContent, d.nextSibling? node, d.isComment node, d.record? node, description⟩

def onTarget (m : RenderM τ (Option Answer)) : RenderM τ (Option Answer) := do
  if (← renderer).target?.isSome then m else return some .noTarget

def saveKey (key : String) : RenderM τ Unit :=
  changeShared fun shared => { shared with savedKeys := key :: shared.savedKeys }

def takeSavedKey : RenderM τ String := do
  let saved := (← state).shared.savedKeys
  changeShared fun shared => { shared with savedKeys := shared.savedKeys.tail }
  return saved.headD ""

/-- What is told of a component that has just been rendered, which makes it known. -/
def introduce (id : ComponentId) : RenderM τ (Option ComponentReport) := do
  changeRegistry (·.learn id)
  return (← state).shared.registry.report? (fun _ => true) id

end RenderM

open RenderM

def Instruction.perform : Instruction → RenderM τ (Option Answer)
  | .kind => do return some (.kind (← renderer).kind)
  | .openElement name key => do return some (.node (← RenderM.openElement name key))
  | .closeElement => do return some (.node (← RenderM.closeElement))
  | .text value => do return some (.node (← RenderM.text value))
  | .pointer => do return some (.node (← pointer?))
  | .current => do return some (.node (← current?))
  | .parameter => do return some (.node (← RenderM.text (← context).parameter))
  | .injected => do return some (.node (← RenderM.text (← context).injected.compactText))
  | .maybeSkip told => do return some (.flag (← RenderM.maybeSkip told))
  | .pushKey fragment => do
    let previous ← RenderM.pushKey fragment
    saveKey previous
    return some (.text previous)
  | .newKey fragment => do return some (.text ((← renderer).newKey fragment))
  | .currentKey => do return some (.text (← renderer).currentKey)
  | .decodeCurrentKey => do return some (.decoded (Key.decode (← renderer).currentKey))
  | .decodeKey encoded => do
    let decoded := Key.decode encoded
    match decoded.failure with
    | some cause => fail (.keyDecode cause)
    | none => return some (.texts (decoded.chunks.map fun c => String.ofList c.raw))
  | .toDefault => do
    RenderM.toDefault
    return some .done
  | .verifyLogOnly logOnly => do return some (.flag (← RenderM.verifyLogOnly logOnly))
  | .evaluateLogging name arguments placeholder => do
    return some (.text (← RenderM.evaluateLogging name arguments placeholder))
  | .logger => do return some (.logger (← logger?))
  | .isTruthy value => return some (.flag (RenderM.isTruthy value))
  | .requeue index => do return some (.requeued (← RenderM.requeue index))
  | .callText template _ => do return some (.text (← templateText template))
  | .templateKind content => return some (.content content)
  | .functionKind rendered => return some (.content rendered.content)
  | .inspect node => onTarget do
    return some (.inspection (← readTarget fun target => inspectTarget target node))
  | .appendComment parent value => onTarget do
    return some (.node (← callTarget (.appendComment parent value)))
  | .setInnerMarkup node markup => onTarget do
    let _ ← callTarget (.setInnerMarkup node markup)
    return none
  | .setComment node value => onTarget do
    let _ ← callTarget (.setComment node value)
    return none
  | .pushManualKey fragment => do
    RenderM.pushManualKey fragment
    return none
  | .popManualKey => do
    RenderM.popManualKey
    return none
  | .popKey (some previous) => do
    RenderM.popKey previous
    return none
  | .popKey none => do
    RenderM.popKey (← takeSavedKey)
    return none
  | .setAttribute name value => do
    RenderM.setAttribute name value
    return none
  | .skip => do
    emit .skip
    return none
  | .skipNode => do
    emit .skipNode
    return none
  | .applyAttributes => do
    emit .applyAttributes
    return none
  | .applyStatics attributes => do
    emit (.applyStatics attributes)
    return none
  | .enter element logOnly => do
    RenderM.enter element logOnly
    return none
  | .exit => do
    RenderM.exit
    return none
  | .setLogger new => do
    RenderM.setLogger new
    return none
  | .comment value => do
    RenderM.comment value
    return none
  | .print value => do
    RenderM.print value
    return none
  | .printContent value => do
    RenderM.printContent value
    return none
  | .callHtml template => do
    let _ ← RenderM.text (← templateText template)
    return none
  | .callAttributes template filter => do
    RenderM.printAttributes true (← templateText template) filter
    return none
  | .callEscaped template _ => do
    let _ ← RenderM.text (← templateText template)
    return none
  | .printAttributes sanitized markup filter => do
    RenderM.printAttributes sanitized markup filter
    return none

def Block.perform (block : Block) (body : Rendering) : RenderM τ (Option Answer) :=
  match block with
  | .openServerElement name key parameters => do
    let renders ← RenderM.openServerElement name key parameters
    answer (.block block) (some (.flag renders))
    if renders then body τ
    return none
  | .attempt => do
    match ← RenderM.attempt (body τ) with
    | .ok () => return some .done
    | .error e => return some (.failure e)
  | .probe => do return some (.flag (← RenderM.probe (body τ)))
  | .coerce rendered => do return some (.text (← renderedText rendered body))
  | .muted => do
    RenderM.muted (body τ)
    return none
  | .shielded => do
    RenderM.shielded (body τ)
    return none
  | .isTruthy => do return some (.flag (← RenderM.probe (body τ)))
  | .print => do
    body τ
    return none
  | .printContent => do
    body τ
    return none
  | .callHtml rendered parameter => do
    RenderM.callHtml rendered fun σ => withParameter parameter (body σ)
    return none
  | .callAttributes rendered parameter filter => do
    RenderM.callAttributes rendered (fun σ => withParameter parameter (body σ)) filter
    return none
  | .callText rendered parameter escaper => do
    let value ← RenderM.callText rendered (fun σ => withParameter parameter (body σ)) escaper
    return some (.text value)
  | .callEscaped rendered parameter escaper => do
    let value ← RenderM.callText rendered (fun σ => withParameter parameter (body σ)) (some escaper)
    let _ ← RenderM.text value
    return none
  | .functionText rendered => do return some (.text (← renderedText rendered body))
  | .functionTruth _ => do return some (.flag (← RenderM.probe (body τ)))
  | .functionCall _ => do
    body τ
    return none
  | .printAttributes rendered filter => do
    printRendered rendered body filter
    return none

def Script.run : Script → Rendering
  | .done, _, _ => return ()
  | .step instruction next, σ, _ => do
    answer (.instruction instruction) (← instruction.perform)
    next.run σ
  | .block b body next, σ, _ => do
    answer (.block b) (← b.perform fun ρ _ => body.run ρ)
    next.run σ
  | .component spec before body next, σ, _ => do
    let report ← match ← renderComponent spec (before.run σ) (body.run σ) with
      | some id => introduce id
      | none => pure none
    answer (.component spec) (some (.component report))
    next.run σ

end KeyedRender
