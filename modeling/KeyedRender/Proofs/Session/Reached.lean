import KeyedRender.Proofs.Script.Steady
import KeyedRender.Proofs.Target.Editing

/-!
# Sessions that are reached

A session goes on by passes and, between passes, by edits of the tree. What holds in the middle of
a pass is said of the states in which a script leaves a pass that has begun: a script that fails
stops anywhere, so that these are all states between two steps of a pass.
-/
namespace KeyedRender

inductive Act
  | pass (settings : Settings) (plan : PassPlan)
  | appendElement (parent : NodeId) (name key : String)
  | appendText (parent : NodeId) (value : String)
  | appendComment (parent : NodeId) (value : String)
  | remove (node : NodeId)

def Act.IsEdit : Act → Prop
  | .pass _ _ => False
  | _ => True

namespace Session

def perform : Act → Session KeyedDom → Except Fault (Session KeyedDom)
  | .pass settings plan, s => (s.pass settings plan).map Prod.snd
  | .appendElement parent name key, s =>
    (s.append parent (.element (.new name key))).map Prod.snd
  | .appendText parent value, s => (s.append parent (.text value)).map Prod.snd
  | .appendComment parent value, s => (s.call (.appendComment parent value)).map Prod.snd
  | .remove node, s => s.remove node

/-- The sessions that a new one can become, if every act on the way is allowed. -/
inductive Reached (allowed : Session KeyedDom → Act → Prop) : Session KeyedDom → Prop
  | start : Reached allowed (start .new)
  | act {s s' : Session KeyedDom} {a : Act} : Reached allowed s → allowed s a →
      s.perform a = .ok s' → Reached allowed s'

def initial {τ : Type} (s : Session τ) : RenderState τ := ⟨.start s.target, ⟨s.registry, [], #[]⟩⟩

end Session

namespace RenderM

def begun {τ : Type} [RenderTarget τ] (root : NodeId) (mode : PatchMode) (rule : Key.MatchRule)
    (logger : Option LoggerId) (template : RenderM τ Unit) : RenderM τ Unit := do
  let _ ← callTarget (.beginPatch root mode rule)
  setLogger logger
  template

end RenderM

def Outcome.EndsIn {σ α : Type} (o : Outcome σ α) (s : σ) : Prop :=
  (∃ a, o = .done a s) ∨ ∃ e, o = .failed e s

theorem Outcome.Meets.of_endsIn {τ α : Type} {fault : Fault → Prop} {n : Nat} {I : Condition τ}
    {o : Outcome (RenderState τ) α} {s : RenderState τ} (h : o.Meets ⟨fault, n, I⟩ fun _ => I)
    (hs : o.EndsIn s) :
    I s.renderer.pass.target s.shared.registry := by
  rcases hs with ⟨a, rfl⟩ | ⟨e, rfl⟩
  · exact h.2
  · exact h.2

theorem Triple.begun {τ : Type} [RenderTarget τ] {x : Exits τ} {P I : Condition τ} {root : NodeId}
    {mode : PatchMode} {rule : Key.MatchRule} {logger : Option LoggerId} {template : RenderM τ Unit}
    (hbegin : ∀ t g, P t g →
      Allows x.fault (fun r => I r.2 g) (RenderTarget.apply (.beginPatch root mode rule) t))
    (htemplate : Triple x I template fun _ => I) :
    Triple x P (RenderM.begun root mode rule logger template) fun _ => I := by
  have hlogger : Triple x I (RenderM.setLogger logger) fun _ => I :=
    .changeRenderer (Renderer.length_layers_setLogger · logger) (Renderer.target_setLogger · logger)
  exact .bind (.callTarget (Q := fun _ => I) hbegin) fun _ => .bind hlogger fun _ => htemplate

theorem exists_ok_of_any {ε α : Type} {r : Except ε α} {p : α → Bool}
    (h : r.toOption.any p = true) : ∃ a, r = .ok a ∧ p a = true := by
  cases r with
  | error e => cases h
  | ok a => exact ⟨a, rfl, h⟩

namespace Session

theorem edited_perform {R : Document → Document → Prop} (h : Document.Restructuring R)
    (s : Session KeyedDom) {a : Act} (ha : a.IsEdit) :
    Allows (fun _ => True) (fun s' => R s.target.document s'.target.document ∧
      s'.registry = s.registry) (s.perform a) := by
  have appended : ∀ parent content,
      (∀ e, content = .element e → e = .new e.name e.key) →
      Allows (fun _ => True) (fun s' => R s.target.document s'.target.document ∧
        s'.registry = s.registry) ((s.append parent content).map Prod.snd) := by
    intro parent content hc
    have happend : Allows (fun _ => True) (fun r : NodeId × Session KeyedDom =>
        R s.target.document r.2.target.document ∧ r.2.registry = s.registry)
        (s.append parent content) :=
      Allows.bind (KeyedDom.edited_append h s.target parent hc) fun _ hr => ⟨hr, rfl⟩
    exact happend.map fun _ hr => hr
  cases a with
  | pass settings plan => exact ha.elim
  | appendElement parent name key => exact appended _ _ (by rintro _ ⟨⟩; rfl)
  | appendText parent value => exact appended _ _ (by simp)
  | appendComment parent value =>
    have hcall : Allows (fun _ => True) (fun r : Option NodeId × Session KeyedDom =>
        R s.target.document r.2.target.document ∧ r.2.registry = s.registry)
        (s.call (.appendComment parent value)) :=
      Allows.bind (KeyedDom.edited_appendComment h s.target parent value) fun _ hr => ⟨hr, rfl⟩
    exact hcall.map fun _ hr => hr
  | remove node =>
    exact Allows.bind (KeyedDom.edited_remove h s.target node) fun _ hr => ⟨hr, rfl⟩

theorem pass_of_meets {settings : Settings} {plan : PassPlan} {s : Session KeyedDom}
    {fault : Fault → Prop} {O : Condition KeyedDom}
    (h : (plan.perform KeyedDom (context settings) s.initial).Meets ⟨fault, 0, O⟩ fun _ => O) :
    Allows fault (fun s' => O s'.target s'.registry) (s.perform (.pass settings plan)) := by
  rw [perform, pass]
  change Outcome.Meets _ _ (plan.perform KeyedDom (context settings)
    ⟨.start s.target, ⟨s.registry, [], #[]⟩⟩) at h
  cases ho : plan.perform KeyedDom (context settings) ⟨.start s.target, ⟨s.registry, [], #[]⟩⟩ with
  | done a t =>
    rw [ho] at h
    exact h.2
  | failed e t =>
    rw [ho] at h
    exact h.2
  | broken f => rwa [ho] at h

end Session

end KeyedRender
