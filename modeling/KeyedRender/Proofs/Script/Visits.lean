import KeyedRender.Proofs.Key.Delimited
import KeyedRender.Proofs.Render.Success
import KeyedRender.Proofs.Script.Tidy
import KeyedRender.Target.KeyedDom
import Mathlib.Data.Set.Function

/-!
# Scripts that call components

A pass may call components of one type, one after the other at the same composite key, and leave
the tree alone between the calls. Each rendering opens one element under a key that tells the
components apart, whatever happens inside the element. The visits of a run say which component
came back from each call, and the node it was attached to.
-/
namespace KeyedRender

/-- Instructions that leave the tree and the components as they are. -/
def Instruction.IsSilent : Instruction → Prop
  | .kind => True
  | .pointer => True
  | .current => True
  | .pushKey _ => True
  | .newKey _ => True
  | .currentKey => True
  | .decodeCurrentKey => True
  | .decodeKey _ => True
  | .toDefault => True
  | .verifyLogOnly _ => True
  | .evaluateLogging _ _ _ => True
  | .logger => True
  | .isTruthy _ => True
  | .requeue _ => True
  | .callText _ _ => True
  | .templateKind _ => True
  | .functionKind _ => True
  | .inspect _ => True
  | .pushManualKey _ => True
  | .popManualKey => True
  | .popKey _ => True
  | .enter _ _ => True
  | .exit => True
  | .setLogger _ => True
  | _ => False

def Script.Silent : Script → Prop
  | .done => True
  | .step i next => i.IsSilent ∧ next.Silent
  | _ => False

section Silent

variable {τ : Type} [RenderTarget τ] {n : Nat} {P : Condition τ}

theorem Instruction.IsSilent.triple {i : Instruction} (h : i.IsSilent) :
    Triple ⟨fun _ => True, n, P⟩ P i.perform fun _ => P := by
  have returning : ∀ {α : Type} {m : RenderM τ α} {f : α → Option Answer}, Quiet m →
      Triple ⟨fun _ => True, n, P⟩ P (m >>= fun a => pure (f a)) fun _ => P :=
    fun hm => (hm.bind fun _ => Quiet.pure).triple
  cases i with
  | kind => exact returning Quiet.renderer
  | pointer => exact returning Quiet.pointer?
  | current => exact returning Quiet.current?
  | pushKey fragment =>
    exact ((Quiet.pushKey fragment).bind fun _ => (Quiet.saveKey _).bind fun _ => Quiet.pure).triple
  | newKey fragment => exact returning Quiet.renderer
  | currentKey => exact returning Quiet.renderer
  | decodeCurrentKey => exact returning Quiet.renderer
  | decodeKey encoded =>
    simp only [Instruction.perform]
    split
    · exact .fail fun _ _ hp => hp
    · exact .pure fun _ _ hp => hp
  | toDefault =>
    refine .bind (.bind_renderer fun r _ => ?_) fun _ => .pure fun _ _ hp => hp
    split
    · exact .fail fun _ _ hp => hp.2
    · exact Quiet.handBackLogger.triple.pre fun _ _ hp => hp.2
    · exact .pure fun _ _ hp => hp.2
  | verifyLogOnly logOnly =>
    refine .bind (.bind_renderer fun r _ => ?_) fun _ => .pure fun _ _ hp => hp
    split
    · exact .fail fun _ _ hp => hp.2
    · split
      · exact .fail fun _ _ hp => hp.2
      · exact .pure fun _ _ hp => hp.2
  | evaluateLogging name arguments placeholder =>
    exact returning (Quiet.evaluateLogging name arguments placeholder)
  | logger => exact returning Quiet.logger?
  | isTruthy value => exact .pure fun _ _ hp => hp
  | requeue index => exact returning (Quiet.requeue index)
  | callText template escaper => exact returning (Quiet.templateText template)
  | templateKind kind => exact .pure fun _ _ hp => hp
  | functionKind kind => exact .pure fun _ _ hp => hp
  | inspect node =>
    refine .bind_renderer fun r _ => ?_
    split
    · refine .bind (.readTarget fun t _ _ => ?_) fun _ => .pure fun _ _ hp => hp.2
      cases RenderM.inspectTarget t node <;> trivial
    · exact .pure fun _ _ hp => hp.2
  | pushManualKey fragment => exact returning (Quiet.pushManualKey fragment)
  | popManualKey => exact returning Quiet.popManualKey
  | popKey previous? =>
    cases previous? with
    | some previous => exact returning (Quiet.popKey previous)
    | none =>
      exact (Quiet.takeSavedKey.bind fun _ => (Quiet.popKey _).bind fun _ => Quiet.pure).triple
  | enter element logOnly => exact returning (Quiet.callLogger _)
  | exit => exact returning (Quiet.callLogger _)
  | setLogger logger => exact returning (Quiet.setLogger logger)
  | _ => exact h.elim

theorem Script.Silent.triple {script : Script} (h : script.Silent) :
    Triple ⟨fun _ => True, n, P⟩ P (script.run τ) fun _ => P := by
  induction script with
  | done => exact .pure fun _ _ hp => hp
  | step i next ih => exact .bind h.1.triple fun a => .bind (Quiet.answer _ a).triple fun _ => ih h.2
  | block b body next => exact h.elim
  | component spec before body next => exact h.elim

end Silent

/-- The fragment that a component was called with, how many components there were before, the
component, and its node. -/
structure Visit where
  first : Key.Fragment
  count : Nat
  component : ComponentId
  node : NodeId
deriving DecidableEq

def Visit.identity (v : Visit) : Key.Identity := v.first.identity

/-- Components of one type, called at one composite key. The name and the key of the element
depend on the fragment as it is written, and the keys of those in use are different. -/
structure Family where
  type : ComponentType
  stack : String
  name : Key.Identity → String
  key : Key.Identity → String
  used : Set (Key.Identity)
  injective : Set.InjOn key used

def Script.KeepsKey (script : Script) : Prop :=
  ∀ ctx s t, script.run KeyedDom ctx s = .done () t → t.renderer.currentKey = s.renderer.currentKey

/-- A component of the family, whose rendering opens one element and stands for it. -/
structure Family.Fits (F : Family) (spec : ComponentSpec) (before body : Script) : Prop where
  type : spec.type = F.type
  name : spec.name = F.name spec.first.identity
  key : spec.key = F.key spec.first.identity
  root : spec.root = .opened
  silent : before.Silent
  keepsKey : before.KeepsKey
  tidy : body.Tidy (fun _ => True) 0

def Registry.nodeOf (g : Registry) (id : ComponentId) : NodeId :=
  ((g.component? id).bind Component.node).getD 0

/-- A script that only calls components of a family, besides silent steps. -/
def Script.Calls (F : Family) : Script → Prop
  | .done => True
  | .step i next => i.IsSilent ∧ next.Calls F
  | .block _ _ _ => False
  | .component spec before body next => F.Fits spec before body ∧ next.Calls F

/-- Runs such a script, whose calls are made at one composite key. Gives their visits and the
state in the end, if nothing fails. -/
def Script.visits? (stack : String) (ctx : Context) :
    Script → RenderState KeyedDom → Option (List Visit × RenderState KeyedDom)
  | .done, s => some ([], s)
  | .step i next, s =>
    match (do RenderM.answer (.instruction i) (← i.perform)) ctx s with
    | .done () t => next.visits? stack ctx t
    | _ => none
  | .block _ _ _, _ => none
  | .component spec before body next, s =>
    if s.renderer.currentKey = stack then
      match RenderM.renderComponent spec (before.run KeyedDom) (body.run KeyedDom) ctx s with
      | .done (some id) t =>
        let visit : Visit :=
          ⟨spec.first, s.shared.registry.components.size, id, t.shared.registry.nodeOf id⟩
        match (do RenderM.answer (.component spec) (some (.component (← RenderM.introduce id)))) ctx
            t with
        | .done () t' => (next.visits? stack ctx t').map fun (visits, u) => (visit :: visits, u)
        | _ => none
      | _ => none
    else none

section Visited

variable {stack : String} {ctx : Context} {next : Script} {s u : RenderState KeyedDom}
  {visits : List Visit}

theorem Script.visits?_step {i : Instruction}
    (h : (Script.step i next).visits? stack ctx s = some (visits, u)) :
    ∃ t, (do RenderM.answer (.instruction i) (← i.perform)) ctx s = .done () t ∧
      next.visits? stack ctx t = some (visits, u) := by
  unfold visits? at h
  split at h
  · next t ht => exact ⟨t, ht, h⟩
  · cases h

theorem Script.visits?_component {spec : ComponentSpec} {before body : Script}
    (h : (Script.component spec before body next).visits? stack ctx s = some (visits, u)) :
    s.renderer.currentKey = stack ∧ ∃ id t t' rest,
      RenderM.renderComponent spec (before.run KeyedDom) (body.run KeyedDom) ctx s =
        .done (some id) t ∧
      (do RenderM.answer (.component spec) (some (.component (← RenderM.introduce id)))) ctx t =
        .done () t' ∧
      next.visits? stack ctx t' = some (rest, u) ∧
      visits = ⟨spec.first, s.shared.registry.components.size, id, t.shared.registry.nodeOf id⟩ ::
        rest := by
  unfold visits? at h
  split at h
  · next hkey =>
    split at h
    · next id t ht =>
      dsimp only at h
      split at h
      · next t' ht' =>
        obtain ⟨⟨rest, u'⟩, hrest, heq⟩ := Option.map_eq_some_iff.1 h
        cases heq
        exact ⟨hkey, id, t, t', rest, ht, ht', hrest, rfl⟩
      · cases h
    · cases h
  · cases h

theorem Script.run_of_visits? {script : Script}
    (h : script.visits? stack ctx s = some (visits, u)) : script.run KeyedDom ctx s = .done () u := by
  induction script generalizing s visits with
  | done =>
    cases h
    rfl
  | step i next ih =>
    obtain ⟨t, hstep, hnext⟩ := visits?_step h
    obtain ⟨a, t', ha, ht⟩ := RenderM.bind_eq_done.1 hstep
    exact RenderM.bind_eq_done.2 ⟨a, t', ha, RenderM.bind_eq_done.2 ⟨(), _, ht, ih hnext⟩⟩
  | block b body next => cases h
  | component spec before body next _ _ ih =>
    obtain ⟨-, id, t, t', rest, hrender, hintroduce, hnext, -⟩ := visits?_component h
    obtain ⟨report, t'', hreport, hanswer⟩ := RenderM.bind_eq_done.1 hintroduce
    refine RenderM.bind_eq_done.2 ⟨_, _, hrender, RenderM.bind_eq_done.2 ⟨report, t'', hreport, ?_⟩⟩
    exact RenderM.bind_eq_done.2 ⟨(), _, hanswer, ih hnext⟩

end Visited

end KeyedRender
