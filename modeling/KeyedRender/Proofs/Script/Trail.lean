import KeyedRender.Proofs.Render.Success
import KeyedRender.Proofs.Script.Course

/-!
# Trails

On a trail each single step keeps to a course, and so does the run of every script. What happens
on the side, on a target of its own, is known by what it does to the shared part of the state.
-/
namespace KeyedRender

open RenderM (callTarget)

def Event.IsReport : Event → Prop
  | .logger _ _ => True
  | .answer _ _ => True
  | .queueLength _ => True
  | _ => False

def Question.IsPlain : Question → Prop
  | .instruction .toDefault => False
  | .instruction (.requeue _) => False
  | .block (.openServerElement _ _ _) => False
  | .component _ => False
  | _ => True

def Shared.changeRegistry (sh : Shared) (change : Registry → Registry) : Shared :=
  { sh with registry := change sh.registry }

/-- A relation that the shared part of the state keeps to. A component is rendered and placed
only after it was created. -/
structure Side (side : Shared → Shared → Prop) : Prop where
  refl : ∀ sh, side sh sh
  trans : ∀ {sh sh' sh''}, side sh sh' → side sh' sh'' → side sh sh''
  log : ∀ event, event.IsReport → ∀ sh, side sh { sh with log := sh.log.push event }
  savedKeys : ∀ sh keys, side sh { sh with savedKeys := keys }
  learn : ∀ sh id, id < sh.registry.components.size → side sh (sh.changeRegistry (·.learn id))
  synchronize : ∀ sh id, side sh { sh.changeRegistry (·.update id Component.synchronize) with
    log := sh.log.push (.synchronized id) }
  created : ∀ {sh c sh'}, side (sh.changeRegistry fun g =>
      (g.create c).2.update g.components.size Component.countRender) sh' →
    side sh sh' ∧ ∀ root, side sh
      (sh'.changeRegistry (·.update sh.registry.components.size (Component.placeAt root)))

theorem Side.trivial : Side fun _ _ => True := by
  constructor <;> simp

structure Reporting (side : Shared → Shared → Prop) : Prop where
  log : ∀ event, event.IsReport → ∀ sh, side sh { sh with log := sh.log.push event }
  savedKeys : ∀ sh keys, side sh { sh with savedKeys := keys }
  learn : ∀ sh id, id < sh.registry.components.size → side sh (sh.changeRegistry (·.learn id))

theorem Side.reporting {side : Shared → Shared → Prop} (hS : Side side) : Reporting side :=
  ⟨hS.log, hS.savedKeys, hS.learn⟩

section

variable {τ : Type} [RenderTarget τ]

structure Trail (side : Shared → Shared → Prop) (watched : Bool)
    (R : List (Moment τ) → RenderState τ → RenderState τ → Prop) : Prop extends Course R where
  plain : ∀ m : Moment τ, m.question.IsPlain → R [m] m.state m.state
  aside : ∀ {s sh}, side s.shared sh → R [] s { s with shared := sh }
  keys : ∀ s change, R [] s { s with renderer := s.renderer.changeKeys change }
  logger : ∀ s logger, R [] s { s with renderer := s.renderer.setLogger logger }
  marked : ∀ s, R [] s { s with renderer := s.renderer.markRendered }
  popped : ∀ {ms s t} layer, R ms (s.push layer) t → R ms s { t with renderer := t.renderer.pop }
  call : ∀ {ctx s t call node}, ctx.watched = watched → s.renderer.layers = [] →
    callTarget call ctx s = .done node t → R [] s t
  blob : ∀ {s} node markup, s.renderer.layers = [] → R [] s { s with
    renderer := s.renderer.setTarget (RenderTarget.withDocument s.renderer.pass.target
      ((RenderTarget.document s.renderer.pass.target).updateRecord node
        fun r => { r with blob := some markup })) }
  server : ∀ {ctx s t} name key parameters, ctx.watched = watched → s.renderer.layers = [] →
    (RenderM.openServerElement name key parameters ctx s).EndsIn t →
    R [⟨.block (.openServerElement name key parameters), ctx, s⟩] s t
  skippedServer : ∀ {ctx s} name key parameters, s.renderer.layers ≠ [] →
    R [⟨.block (.openServerElement name key parameters), ctx, s⟩] s s
  toDefault : ∀ {ctx s t}, ctx.watched = watched → (Instruction.toDefault.perform ctx s).EndsIn t →
    R [⟨.instruction .toDefault, ctx, s⟩] s t
  requeue : ∀ {ctx s t} index, ctx.watched = watched →
    ((Instruction.requeue index).perform ctx s).EndsIn t →
    R [⟨.instruction (.requeue index), ctx, s⟩] s t
  probed : ∀ {ctx s} spec, s.renderer.kind = .probe → R [⟨.component spec, ctx, s⟩] s s
  component : ∀ {spec ctx s id u ms v}, ctx.watched = watched → s.renderer.kind ≠ .probe →
    RenderM.beginComponent spec ctx s = .done id u → R ms u v →
    R (⟨.component spec, ctx, s⟩ :: ms) s v ∧
      ∀ {root t}, RenderM.attach id root ctx v = .done () t →
        R (⟨.component spec, ctx, s⟩ :: ms) s t

end

namespace RenderM

variable {τ : Type} [RenderTarget τ] {ctx : Context} {s t : RenderState τ} {call : TargetCall}

theorem callTarget_of_endsIn (h : (callTarget call ctx s).EndsIn t) :
    ∃ node, callTarget call ctx s = .done node t := by
  rcases h with h | ⟨e, he⟩
  · exact h
  · unfold callTarget at he
    split at he <;> cases he

theorem layers_of_callTarget {node : Option NodeId} (h : callTarget call ctx s = .done node t) :
    t.renderer.layers = s.renderer.layers := by
  unfold callTarget at h
  split at h
  · cases h
  · cases h
    rfl

theorem registry_of_callTarget {node : Option NodeId} (h : callTarget call ctx s = .done node t) :
    t.shared.registry = s.shared.registry := by
  unfold callTarget at h
  split at h
  · cases h
  · cases h
    rfl

theorem layers_of_kind_eq_default {τ : Type} {r : Renderer τ} (h : r.kind = .default) :
    r.layers = [] := by
  unfold Renderer.kind at h
  split at h
  · assumption
  · cases h
  · cases h

theorem emit?_of_layers (h : s.renderer.layers = []) (call : TargetCall) :
    emit? call ctx s = callTarget call ctx s :=
  emit?_run (by rw [h]; rfl) call

theorem emit_of_endsIn (hs : s.renderer.layers = []) {call : TargetCall}
    (h : (emit call ctx s).EndsIn t) :
    emit call ctx s = .done () t ∧ ∃ answer, callTarget call ctx s = .done answer t := by
  simp only [emit, bind_run, emit?_of_layers hs] at h ⊢
  cases hcall : callTarget call ctx s with
  | done answer u =>
    rw [hcall] at h
    obtain rfl := Outcome.EndsIn.done_iff.1 h
    exact ⟨rfl, answer, rfl⟩
  | failed e u =>
    obtain ⟨answer, hdone⟩ := callTarget_of_endsIn (.inr ⟨e, hcall⟩)
    rw [hdone] at hcall
    cases hcall
  | broken f =>
    rw [hcall] at h
    exact absurd h Outcome.EndsIn.not_broken

theorem writeBlob_of_endsIn (hs : s.renderer.layers = []) {node : NodeId} {markup : String}
    (h : (writeBlob node markup ctx s).EndsIn t) :
    ((RenderTarget.document s.renderer.pass.target).record? node).bind NodeRecord.blob =
        some markup ∧ t = s ∨
      ((RenderTarget.document s.renderer.pass.target).record? node).bind NodeRecord.blob ≠
        some markup ∧ ∃ answer u, callTarget (.setInnerMarkup node markup) ctx s = .done answer u ∧
          t = { u with renderer := u.renderer.setTarget (RenderTarget.withDocument
            u.renderer.pass.target ((RenderTarget.document u.renderer.pass.target).updateRecord node
              fun r => { r with blob := some markup })) } := by
  obtain ⟨e, he⟩ | ⟨d, s', hd, h⟩ := Outcome.EndsIn.bind_iff.1 h
  · cases he
  cases hd
  split at h
  · next hold =>
    obtain ⟨e, he⟩ | ⟨_, u, hu, h⟩ := Outcome.EndsIn.bind_iff.1 h
    · have hdone := (emit_of_endsIn hs (.inr ⟨e, he⟩)).1
      rw [hdone] at he
      cases he
    · obtain ⟨-, answer, hcall⟩ := emit_of_endsIn hs (.inl ⟨_, hu⟩)
      exact .inr ⟨hold, answer, u, hcall, (Outcome.EndsIn.done_iff.1 h).symm⟩
  · next hold => exact .inl ⟨Decidable.not_not.1 hold, (Outcome.EndsIn.done_iff.1 h).symm⟩

theorem callTarget_of_emit?_some {node : NodeId} (h : emit? call ctx s = .done (some node) t) :
    s.renderer.layers = [] ∧ callTarget call ctx s = .done (some node) t := by
  cases hkind : s.renderer.kind with
  | default =>
    have hs := layers_of_kind_eq_default hkind
    rw [emit?_of_layers hs] at h
    exact ⟨hs, h⟩
  | muted =>
    simp only [emit?, bind_run, renderer, hkind] at h
    cases h
  | probe =>
    simp only [emit?, bind_run, renderer, hkind] at h
    cases h

omit [RenderTarget τ] in
theorem enterComponent_run (id : ComponentId) (ctx : Context) (s : RenderState τ) :
    enterComponent id ctx s = if id ∈ ctx.rendering then .broken (.reentered id)
      else .done id ⟨s.renderer.enqueue id,
        s.shared.changeRegistry (·.update id Component.countRender)⟩ := by
  simp only [enterComponent, bind_run, enqueue, RenderM.changeRenderer, context]
  split <;> rfl

theorem findComponent?_done (type : ComponentType) (key : String) (ctx : Context)
    (s : RenderState τ) : ∃ found, findComponent? type key ctx s = .done found s := by
  simp only [findComponent?, bind_run, state]
  cases s.renderer.target? <;> exact ⟨_, rfl⟩

theorem findComponent?_none_of_layers (hs : s.renderer.layers ≠ []) (type : ComponentType)
    (key : String) (ctx : Context) : findComponent? type key ctx s = .done none s := by
  have htarget : s.renderer.target? = none := by simp [Renderer.target?, hs]
  simp only [findComponent?, bind_run, state, htarget, pure_run]

theorem beginComponent_ne_failed {spec : ComponentSpec} {e : RenderError} :
    beginComponent spec ctx s ≠ .failed e t := by
  have henter : ∀ (id : ComponentId) (u : RenderState τ),
      enterComponent id ctx u ≠ .failed e t := by
    intro id u
    rw [enterComponent_run]
    split <;> simp
  obtain ⟨found, hfound⟩ := findComponent?_done spec.type
    (Key.encode spec.first ++ s.renderer.currentKey) ctx s
  simp only [beginComponent, bind_run, renderer, hfound]
  cases found with
  | none => exact henter _ _
  | some id => exact henter _ _

theorem beginComponent_new {spec : ComponentSpec} {id : ComponentId}
    (hnone : findComponent? spec.type (Key.encode spec.first ++ s.renderer.currentKey) ctx s =
      .done none s)
    (h : beginComponent spec ctx s = .done id t) :
    id = s.shared.registry.components.size ∧ ∃ c, t = ⟨s.renderer.enqueue id,
      s.shared.changeRegistry fun g =>
        (g.create c).2.update g.components.size Component.countRender⟩ := by
  simp only [beginComponent, bind_run, renderer, hnone, Stable.createComponent_run,
    enterComponent_run] at h
  split at h
  · cases h
  · cases h
    exact ⟨rfl, _, rfl⟩

theorem findComponent?_some {id : ComponentId} {type : ComponentType} {key : String}
    (h : findComponent? type key ctx s = .done (some id) s) : s.renderer.layers = [] ∧
      findAttached? (RenderTarget.document s.renderer.pass.target) s.shared.registry type key
        ((RenderTarget.document s.renderer.pass.target).siblingsFrom
          (RenderTarget.pointer? s.renderer.pass.target)) = some id := by
  by_cases hs : s.renderer.layers = []
  · have htarget : s.renderer.target? = some s.renderer.pass.target := by
      simp [Renderer.target?, hs]
    simp only [findComponent?, bind_run, state, htarget, pure_run] at h
    cases h' : findAttached? (RenderTarget.document s.renderer.pass.target) s.shared.registry type
        key ((RenderTarget.document s.renderer.pass.target).siblingsFrom
          (RenderTarget.pointer? s.renderer.pass.target)) with
    | none => rw [h'] at h; cases h
    | some other =>
      rw [h'] at h
      cases h
      exact ⟨hs, rfl⟩
  · rw [findComponent?_none_of_layers hs] at h
    cases h

theorem lt_size_of_findComponent? {id : ComponentId} {type : ComponentType} {key : String}
    (h : findComponent? type key ctx s = .done (some id) s) :
    id < s.shared.registry.components.size := by
  obtain ⟨n, -, slot, -, -, -, -, htype⟩ := slot_of_findAttached? (findComponent?_some h).2
  obtain ⟨c, hc, -⟩ := Option.map_eq_some_iff.1 htype
  exact Registry.lt_size_of_component? hc

theorem beginComponent_found {id : ComponentId} {spec : ComponentSpec}
    (h : findComponent? spec.type (Key.encode spec.first ++ s.renderer.currentKey) ctx s =
      .done (some id) s) : beginComponent spec ctx s = enterComponent id ctx s := by
  simp only [beginComponent, bind_run, renderer, h]

theorem beginComponent_origin {id : ComponentId} {spec : ComponentSpec}
    (h : beginComponent spec ctx s = .done id t) :
    findComponent? spec.type (Key.encode spec.first ++ s.renderer.currentKey) ctx s =
        .done (some id) s ∨
      id = s.shared.registry.components.size ∧
        t.shared.registry.components.size = s.shared.registry.components.size + 1 := by
  obtain ⟨found, hfound⟩ := findComponent?_done spec.type
    (Key.encode spec.first ++ s.renderer.currentKey) ctx s
  cases found with
  | none =>
    obtain ⟨hid, c, rfl⟩ := beginComponent_new hfound h
    refine .inr ⟨hid, ?_⟩
    simp [Shared.changeRegistry, Registry.size_update, Registry.create]
  | some other =>
    rw [beginComponent_found hfound, enterComponent_run] at h
    split at h
    · cases h
    · cases h
      exact .inl hfound

theorem beginComponent_cases {spec : ComponentSpec} {id : ComponentId}
    (h : beginComponent spec ctx s = .done id t) : t.renderer = s.renderer.enqueue id ∧
      (t.shared = s.shared.changeRegistry (·.update id Component.countRender) ∨
        ∃ type key label, t.shared = s.shared.changeRegistry fun g =>
          (g.create (.new type key label)).2.update g.components.size Component.countRender) := by
  obtain ⟨found, hfound⟩ := findComponent?_done spec.type
    (Key.encode spec.first ++ s.renderer.currentKey) ctx s
  cases found with
  | none =>
    simp only [beginComponent, bind_run, renderer, hfound, Stable.createComponent_run,
      enterComponent_run] at h
    split at h
    · cases h
    · cases h
      exact ⟨rfl, .inr ⟨_, _, _, rfl⟩⟩
  | some other =>
    simp only [beginComponent, bind_run, renderer, hfound, enterComponent_run] at h
    split at h
    · cases h
    · cases h
      exact ⟨rfl, .inl rfl⟩

theorem lt_size_of_beginComponent {spec : ComponentSpec} {id : ComponentId}
    (h : beginComponent spec ctx s = .done id t) : id < t.shared.registry.components.size := by
  rcases beginComponent_origin h with hfound | ⟨rfl, hsize⟩
  · have hold := lt_size_of_findComponent? hfound
    rw [beginComponent_found hfound, enterComponent_run] at h
    split at h
    · cases h
    · cases h
      exact Nat.lt_of_lt_of_eq hold (Registry.size_update _ _ _).symm
  · exact hsize ▸ Nat.lt_succ_self _

theorem beginComponent_renderer {spec : ComponentSpec} {id : ComponentId}
    (h : beginComponent spec ctx s = .done id t) : t.renderer = s.renderer.enqueue id :=
  (beginComponent_cases h).1

theorem toDefault_of_endsIn (ht : (Instruction.toDefault.perform ctx s).EndsIn t) :
    t = s ∨ t = { s with renderer := s.renderer.handBackLogger } := by
  simp only [Instruction.perform, toDefault, bind_run, renderer] at ht
  cases hkind : s.renderer.kind with
  | default =>
    rw [hkind] at ht
    exact .inl (Outcome.EndsIn.failed_iff.1 ht).symm
  | muted =>
    rw [hkind] at ht
    exact .inr (Outcome.EndsIn.done_iff.1 ht).symm
  | probe =>
    rw [hkind] at ht
    exact .inl (Outcome.EndsIn.done_iff.1 ht).symm

theorem requeue_of_endsIn {index : Nat}
    (ht : ((Instruction.requeue index).perform ctx s).EndsIn t) :
    let found := (s.shared.registry.known[index]?).filter
      (s.renderer.held ++ ctx.rendering ++ ctx.pinned).contains
    found = none ∧ t = s ∨
      ∃ id, found = some id ∧ t = { s with renderer := s.renderer.enqueue id } := by
  simp only [Instruction.perform, requeue, bind_run, state] at ht
  cases hknown : s.shared.registry.known[index]? with
  | none =>
    rw [hknown] at ht
    exact .inl ⟨rfl, (Outcome.EndsIn.done_iff.1 ht).symm⟩
  | some id =>
    rw [hknown] at ht
    simp only [liveComponents, bind_run, context, renderer, pure_run] at ht
    by_cases hlive : (s.renderer.held ++ ctx.rendering ++ ctx.pinned).contains id
    · rw [if_pos hlive] at ht
      exact .inr ⟨id, if_pos hlive, (Outcome.EndsIn.done_iff.1 ht).symm⟩
    · rw [if_neg hlive] at ht
      exact .inl ⟨if_neg hlive, (Outcome.EndsIn.done_iff.1 ht).symm⟩

theorem attach_cases (id : ComponentId) (root : NodeId) (ctx : Context) (s : RenderState τ) :
    attach id root ctx s = .done () s ∨ s.renderer.layers = [] ∧
      ∃ c, s.shared.registry.component? id = some c ∧
        attach id root ctx s = .done () ⟨s.renderer.setTarget
          (RenderTarget.withDocument s.renderer.pass.target
            (attachedDocument (RenderTarget.document s.renderer.pass.target) id c root)),
          s.shared.changeRegistry fun g =>
            attachedRegistry (RenderTarget.document s.renderer.pass.target) g id c root⟩ := by
  by_cases hs : s.renderer.layers = []
  · cases hc : s.shared.registry.component? id with
    | none => exact .inl (Stable.attach_run_hidden (fun _ => hc) root)
    | some c => exact .inr ⟨hs, c, rfl, Stable.attach_run (by simp [hs]) hc root⟩
  · refine .inl (Stable.attach_run_hidden (fun h => ?_) root)
    exact absurd (List.eq_nil_of_length_eq_zero h) hs

theorem attach_of_endsIn {id : ComponentId} {root : NodeId} (h : (attach id root ctx s).EndsIn t) :
    t = s ∨ s.renderer.layers = [] ∧ ∃ c, s.shared.registry.component? id = some c ∧
      t = ⟨s.renderer.setTarget (RenderTarget.withDocument s.renderer.pass.target
          (attachedDocument (RenderTarget.document s.renderer.pass.target) id c root)),
        s.shared.changeRegistry fun g =>
          attachedRegistry (RenderTarget.document s.renderer.pass.target) g id c root⟩ := by
  rcases attach_cases id root ctx s with hsame | ⟨hl, c, hc, hattach⟩
  · rw [hsame] at h
    exact .inl (Outcome.EndsIn.done_iff.1 h).symm
  · rw [hattach] at h
    exact .inr ⟨hl, c, hc, (Outcome.EndsIn.done_iff.1 h).symm⟩

theorem size_le_of_renderBegun {spec : ComponentSpec} {before body : Script} {id : ComponentId}
    {root : Option NodeId}
    (h : renderBegun spec (before.run τ) (body.run τ) id ctx s = .done root t) :
    s.shared.registry.components.size ≤ t.shared.registry.components.size := by
  have hkept : ∀ script : Script, _ := fun script =>
    script.keeps_size (τ := τ) s.renderer.layers.length s.shared.registry.components.size
  have hstable := stable_size (τ := τ) s.renderer.layers.length s.shared.registry.components.size
  exact (((hstable.renderRoot (k := 0) (fun _ _ _ => trivial) (hkept before)
    (hkept body)).withContext _).done rfl (Nat.le_refl _) h).2.1

theorem lt_size_of_renderComponent {spec : ComponentSpec} {before body : Script} {id : ComponentId}
    (h : renderComponent spec (before.run τ) (body.run τ) ctx s = .done (some id) t) :
    id < t.shared.registry.components.size := by
  rw [renderComponent_eq] at h
  obtain ⟨_, _, hr, h⟩ := bind_eq_done.1 h
  cases hr
  split at h
  · obtain ⟨_, _, -, h⟩ := bind_eq_done.1 h
    cases h
  obtain ⟨begun, u, hbegin, h⟩ := bind_eq_done.1 h
  obtain ⟨root, v, hroot, h⟩ := bind_eq_done.1 h
  have hbegun : begun < v.shared.registry.components.size :=
    Nat.lt_of_lt_of_le (lt_size_of_beginComponent hbegin) (size_le_of_renderBegun hroot)
  cases root with
  | none =>
    cases h
    exact hbegun
  | some node =>
    obtain ⟨_, w, hattach, h⟩ := bind_eq_done.1 h
    cases h
    rcases attach_of_endsIn (.inl ⟨_, hattach⟩) with rfl | ⟨-, c, -, rfl⟩
    · exact hbegun
    · exact Nat.lt_of_lt_of_eq hbegun (size_attachedRegistry ..).symm

theorem attach_ne_failed {id : ComponentId} {root : NodeId} {e : RenderError} :
    attach id root ctx s ≠ .failed e t := by
  rcases attach_cases id root ctx s with h | ⟨-, c, -, h⟩ <;> rw [h] <;> exact nofun

end RenderM

end KeyedRender
