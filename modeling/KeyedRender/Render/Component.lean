import KeyedRender.Render.Calls

/-!
# Rendering components

A component is found again by scanning the node at the pointer and the siblings after it for an
attached component of the same type whose key matches. Otherwise a new one is created. It is
queued, rendered, and attached to the root of its rendering; one that is rendering already cannot
be entered again.
-/
namespace KeyedRender.RenderM

variable {τ : Type} [RenderTarget τ]

/-- The first component of a type, by tag and by identity, whose key matches. -/
def findAttached? (d : Document) (registry : Registry) (type : ComponentType) (key : String) :
    List NodeId → Option ComponentId
  | [] => none
  | node :: rest =>
    match (d.record? node).bind NodeRecord.slot with
    | none => findAttached? d registry type key rest
    | some slot =>
      if slot.tag = type.tag ∧ Key.isMatchingText key slot.key ∧
          (registry.component? slot.component).map Component.type = some type then
        some slot.component
      else findAttached? d registry type key rest

def findComponent? (type : ComponentType) (key : String) : RenderM τ (Option ComponentId) := do
  let s ← state
  match s.renderer.target? with
  | none => return none
  | some target =>
    let d := RenderTarget.document target
    return findAttached? d s.shared.registry type key (d.siblingsFrom (RenderTarget.pointer? target))

def createComponent (type : ComponentType) (key label : String) : RenderM τ ComponentId := do
  let createdWith := label ++ "/" ++ (← context).injected.compactText
  let (id, registry) :=
    (← state).shared.registry.create (.new type key createdWith)
  changeRegistry fun _ => registry
  return id

def renderRoot (spec : ComponentSpec) (before body : RenderM τ Unit) :
    RenderM τ (Option NodeId) := do
  before
  match spec.root with
  | .text => text spec.label
  | .bare node => return node
  | form =>
    let root ← openElement spec.name spec.key
    body
    emit .closeElement
    return match form with
      | .opened => root
      | .given node => some node
      | _ => none

def Holds (d : Document) (node : NodeId) (id : ComponentId) : Prop :=
  ((d.record? node).bind NodeRecord.slot).map ComponentSlot.component = some id

instance (d : Document) (node : NodeId) (id : ComponentId) : Decidable (Holds d node id) :=
  inferInstanceAs (Decidable (_ = _))

/-- Takes a component off the node it was attached to before, if that is another one. -/
def detach (d : Document) (id : ComponentId) (previous : Option NodeId) (root : NodeId) :
    Document :=
  match previous with
  | none => d
  | some node =>
    if node ≠ root ∧ Holds d node id then d.updateRecord node fun r => { r with slot := none }
    else d

/-- Attaches a component to the root of its rendering. A root without a record stays bare. -/
def attach (id : ComponentId) (root : NodeId) : RenderM τ Unit := do
  let s ← state
  match s.renderer.target?, s.shared.registry.component? id with
  | some target, some c =>
    let detached := detach (RenderTarget.document target) id c.node root
    let slot : ComponentSlot := ⟨c.type.tag, c.key, id⟩
    let attached :=
      if Holds detached root id then detached
      else detached.updateRecord root fun r => { r with slot := some slot }
    changeRenderer (Renderer.setTarget (RenderTarget.withDocument target attached))
    if (detached.record? root).isSome then
      changeRegistry (·.update id (Component.placeAt root))
  | _, _ => return ()

/-- Queues a component, renders it and attaches it to its root. One that is rendering already
cannot be entered. -/
def renderInstance (id : ComponentId) (spec : ComponentSpec) (before body : RenderM τ Unit) :
    RenderM τ (Option ComponentId) := do
  enqueue id
  if id ∈ (← context).rendering then breakWith (.reentered id)
  changeRegistry (·.update id Component.countRender)
  let root ← withContext (fun ctx => { ctx with rendering := id :: ctx.rendering })
    (renderRoot spec before body)
  match root with
  | some node => attach id node
  | none => pure ()
  return some id

/-- Finds or creates a component and renders it. A probe only notes that something would be
rendered. -/
def renderComponent (spec : ComponentSpec) (before body : RenderM τ Unit) :
    RenderM τ (Option ComponentId) := do
  let r ← renderer
  if r.kind = .probe then
    changeRenderer Renderer.markRendered
    return none
  else
    let key := Key.encode spec.first ++ r.currentKey
    match ← findComponent? spec.type key with
    | some id => renderInstance id spec before body
    | none => renderInstance (← createComponent spec.type key spec.label) spec before body

def liveComponents : RenderM τ (List ComponentId) := do
  let ctx ← context
  return (← renderer).held ++ ctx.rendering ++ ctx.pinned

def requeue (index : Nat) : RenderM τ (Option Bool) := do
  match (← state).shared.registry.known[index]? with
  | none => return none
  | some id =>
    if (← liveComponents).contains id then
      enqueue id
      return some true
    else return some false

end KeyedRender.RenderM
