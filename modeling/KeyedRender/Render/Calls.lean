import KeyedRender.Payload.Printer
import KeyedRender.Render.Monad

/-!
# Calls of a renderer

The calls that templates make. A call that changes the tree reaches the target if no layer is in
the way; a muted layer ignores it and a probe remembers that it came. Keys and logging belong to
the topmost renderer.
-/
namespace KeyedRender.RenderM

variable {τ α : Type}

section Target

variable [RenderTarget τ]

def callTarget (call : TargetCall) : RenderM τ (Option NodeId) := fun ctx s =>
  match RenderTarget.apply call s.renderer.pass.target with
  | .error f => .broken f
  | .ok (node, target) =>
    let log := if ctx.watched then s.shared.log.push (.target call) else s.shared.log
    .done node ⟨s.renderer.setTarget target, { s.shared with log := log }⟩

/-- A call that changes the tree, and the node it is about if the target has one. -/
def emit? (call : TargetCall) : RenderM τ (Option NodeId) := do
  match (← renderer).kind with
  | .default => callTarget call
  | .muted => return none
  | .probe =>
    changeRenderer Renderer.markRendered
    return none

def emit (call : TargetCall) : RenderM τ Unit := do
  let _ ← emit? call

def openElement (name key : String) : RenderM τ (Option NodeId) := do
  emit? (.openElement name ((← renderer).newKey (.text key)))

def closeElement : RenderM τ (Option NodeId) := emit? .closeElement

def text (value : String) : RenderM τ (Option NodeId) := emit? (.text value)

/-- The values of some attributes are properties of the element too. -/
def setAttribute (name value : String) : RenderM τ Unit := do
  emit (.setAttribute name value)
  if name = "checked" then emit (.setProperty name (.flag (value ≠ "false")))
  else if name = "value" then emit (.setProperty name (.text value))

def pointer? : RenderM τ (Option NodeId) := do
  return (← renderer).target?.bind RenderTarget.pointer?

def current? : RenderM τ (Option NodeId) := do
  return (← renderer).target?.bind RenderTarget.current?

def readTarget (read : τ → Except Fault α) : RenderM τ α := do
  match read (← renderer).pass.target with
  | .ok a => return a
  | .error f => breakWith f

def targetDocument : RenderM τ Document := do
  return RenderTarget.document (← renderer).pass.target

def changeRecord (node : NodeId) (change : NodeRecord → NodeRecord) : RenderM τ Unit :=
  changeRenderer fun r =>
    r.setTarget (RenderTarget.withDocument r.pass.target
      ((RenderTarget.document r.pass.target).updateRecord node change))

def serverKeyAttribute : String := "soy-server-key"

/-- The first supplied parameters of a skipped element are recorded, and later ones must have the
same text. -/
def verifySkipParameters (node : NodeId) (parameters : Payload) : RenderM τ Unit := do
  let new := parameters.indentedText
  match (← targetDocument).record? node with
  | none => return ()
  | some record =>
    match record.skipParameters with
    | none => changeRecord node fun r => { r with skipParameters := some new }
    | some old =>
      if old ≠ new then
        let element ← readTarget (RenderTarget.describe · node)
        fail (.skipParametersChanged old new element)

def stampKey (key : String) : RenderM τ Unit := do
  if (← context).stampsKeys then setAttribute serverKeyAttribute key

/-- Opens an element by the key a server gave it; one with content is skipped and closed. Says
whether the content has to be rendered. -/
def openServerElement (name key : String) (parameters : Option Payload) : RenderM τ Bool := do
  match (← renderer).kind with
  | .muted => return true
  | .probe =>
    changeRenderer Renderer.markRendered
    return false
  | .default =>
    let opened ← callTarget (.openElement name key)
    stampKey key
    match opened with
    | none => return true
    | some node =>
      if ← readTarget (RenderTarget.hasContent · node) then
        match parameters.filter Payload.isSupplied with
        | some supplied => verifySkipParameters node supplied
        | none => pure ()
        emit .skip
        emit .closeElement
        return false
      else return true

/-- Skips the content of the element that was just opened, if told to. Says whether the content
must not be rendered. -/
def maybeSkip (skip : Bool) : RenderM τ Bool := do
  match (← renderer).kind with
  | .muted => return skip
  | .probe =>
    changeRenderer Renderer.markRendered
    return true
  | .default =>
    if skip then
      emit .skip
      emit .closeElement
    return skip

end Target

def pushKey (fragment : Key.Fragment) : RenderM τ String := do
  let previous := (← renderer).currentKey
  changeRenderer (Renderer.changeKeys (·.pushCall fragment))
  return previous

def popKey (previous : String) : RenderM τ Unit :=
  changeRenderer (Renderer.changeKeys (·.popCall previous))

def pushManualKey (fragment : Key.Fragment) : RenderM τ Unit :=
  changeRenderer (Renderer.changeKeys (·.pushManual fragment))

def popManualKey : RenderM τ Unit :=
  changeRenderer (Renderer.changeKeys Key.Stack.popManual)

def logger? : RenderM τ (Option LoggerId) := do return (← renderer).logger?

def setLogger (logger : Option LoggerId) : RenderM τ Unit :=
  changeRenderer (Renderer.setLogger logger)

def callLogger (call : LoggerCall) : RenderM τ Unit := do
  match ← logger? with
  | some logger => log (.logger logger call)
  | none => return ()

def enter (element : VisualElementData) (logOnly : Bool) : RenderM τ Unit :=
  callLogger (.enter (.ofElement element logOnly))

def exit : RenderM τ Unit := callLogger .exit

def verifyLogOnly (logOnly : Bool) : RenderM τ Bool := do
  let r ← renderer
  if r.kind = .probe then fail .loggingInCondition
  else if logOnly && r.logger?.isNone then fail .logOnlyWithoutLogger
  else return logOnly

def evaluateLogging (name : String) (arguments : List Payload) (placeholder : String) :
    RenderM τ String := do
  match ← logger? with
  | none => return placeholder
  | some logger =>
    log (.logger logger (.evaluate name arguments))
    return (← context).evaluate logger name arguments

def toDefault : RenderM τ Unit := do
  match (← renderer).kind with
  | .default => fail .defaultToDefault
  | .muted => changeRenderer Renderer.handBackLogger
  | .probe => return ()

def shielded (m : RenderM τ α) : RenderM τ α := do
  let (result, _) ← layered (.muted .empty (← logger?)) m
  resume result

/-- Runs muted. A probe is muted already; a muted renderer must not be muted again. -/
def muted (m : RenderM τ α) : RenderM τ α := do
  match (← renderer).kind with
  | .default => shielded m
  | .muted => fail .mutedToMuted
  | .probe => m

def probe (m : RenderM τ Unit) : RenderM τ Bool := do
  let (result, rendered) ← layered (.probe false) m
  resume result
  return rendered

def enqueue (id : ComponentId) : RenderM τ Unit := changeRenderer (Renderer.enqueue id)

def synchronizeAll : List ComponentId → RenderM τ Unit
  | [] => return ()
  | id :: rest => do
    if id ∈ (← context).rendering then breakWith (.reentered id)
    changeRegistry (·.update id Component.synchronize)
    log (.synchronized id)
    synchronizeAll rest

def flushQueue : RenderM τ Unit := do
  let queue := (← renderer).pass.queue
  changeRenderer Renderer.clearQueue
  synchronizeAll queue

end KeyedRender.RenderM
