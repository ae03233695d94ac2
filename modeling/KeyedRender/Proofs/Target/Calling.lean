import KeyedRender.Proofs.Script.Steady

/-!
# Conditions that calls keep

A condition on a keyed target and the registry that every call keeps, whatever state the target is
in, is kept by every script, and by every pass that begins well.
-/
namespace KeyedRender

def PassPlan.root : PassPlan → NodeId
  | .bracketed root _ _ _ _ => root
  | .direct root _ _ _ _ => root

/-- Conditions that calls, and attaching one of some components, keep. -/
structure CallInvariant (E : ComponentId → Prop) (I : Condition KeyedDom) : Prop where
  call : ∀ {t g} call, call.IsInner → I t g →
    Allows (fun _ => True) (fun r => I r.2 g) (KeyedDom.apply call t)
  recorded : ∀ {t g change} node, (∀ r : NodeRecord, (change r).slot = r.slot) → I t g →
    I (t.setDocument (t.document.updateRecord node change)) g
  grows : ∀ {t g g'}, I t g → g.Extends g' → I t g'
  created : ∀ {t g}, I t g → E g.components.size
  found : ∀ {t g type key l id}, I t g →
    RenderM.findAttached? t.document g type key l = some id → E id
  attached : ∀ {t g id c} root, I t g → E id → g.component? id = some c →
    I (t.setDocument (attachedDocument t.document id c root))
      (attachedRegistry t.document g id c root)

namespace CallInvariant

variable {E : ComponentId → Prop} {I P : Condition KeyedDom}

def scope (E : ComponentId → Prop) : Scope KeyedDom :=
  ⟨fun _ => True, fun _ => True, E, fun _ => True, fun _ _ => True⟩

theorem and {I' : Condition KeyedDom} (h : CallInvariant E I) (h' : CallInvariant E I') :
    CallInvariant E fun t g => I t g ∧ I' t g where
  call call hc hi := (h.call call hc hi.1).and (h'.call call hc hi.2)
  recorded node hchange hi := ⟨h.recorded node hchange hi.1, h'.recorded node hchange hi.2⟩
  grows hi he := ⟨h.grows hi.1 he, h'.grows hi.2 he⟩
  created hi := h.created hi.1
  found hi hid := h.found hi.1 hid
  attached root hi hid hc := ⟨h.attached root hi.1 hid hc, h'.attached root hi.2 hid hc⟩

theorem stable (h : CallInvariant E I) (n : Nat) : Stable (scope E) n fun _ => I := by
  have base : Stable (scope E) 0 fun _ => I :=
    { reentered := fun _ => trivial
      grows := fun hi he => h.grows hi he
      created := fun hi => h.created hi
      opened := fun _ _ _ _ name key hi =>
        (h.call (.openElement name key) trivial hi).mono fun _ hr =>
          ⟨hr, fun _ _ => ⟨trivial, trivial⟩⟩
      closed := fun _ _ _ _ hi => h.call .closeElement trivial hi
      wrote := fun _ _ _ _ value hi =>
        (h.call (.text value) trivial hi).mono fun _ hr => ⟨hr, fun _ _ => trivial⟩
      assigned := fun _ _ _ _ call hc hi => by
        have hinner : call.IsInner := by cases call <;> trivial
        exact (h.call call hinner hi).mono fun _ hr => ⟨hr, fun _ _ => trivial⟩
      stayed := fun _ _ _ _ call hc hi => by
        have hinner : call.IsInner := by cases call <;> trivial
        exact h.call call hinner hi
      appended := fun _ _ _ _ node value hi _ =>
        h.call (.appendComment node value) trivial hi
      filled := fun _ _ _ _ node markup hi _ =>
        (h.call (.setInnerMarkup node markup) trivial hi).mono fun _ hr => ⟨hr, trivial⟩
      recorded := fun _ _ _ _ node _ hi _ hc => h.recorded node hc hi
      described := fun _ _ t _ node _ _ => ⟨by
        change Allows _ _ (t.hasContent node)
        cases t.hasContent node <;> trivial, by
        change Allows _ _ (t.describe node)
        cases t.describe node <;> trivial⟩
      found := fun _ _ _ _ _ _ _ hi hid => h.found hi hid
      attached := fun _ _ _ _ _ root _ hi hid _ hc => h.attached root hi hid hc
      direct := fun _ _ _ _ i call hi hcall _ => by
        have hinner : call.IsInner := by
          cases i <;> cases hcall <;> trivial
        exact h.call call hinner hi
      inspected := fun _ _ t _ node _ _ => by
        cases RenderM.inspectTarget t node <;> trivial }
  exact base.levels n

theorem script (h : CallInvariant E I) (script : Script) (n : Nat) :
    Triple ⟨fun _ => True, n, I⟩ I (script.run KeyedDom) fun _ => I :=
  script.steady script.all_trivial KeyedDom (scope E) n I (fun _ hi => hi) (fun _ _ => trivial)
    (h.stable n)

theorem attempt (h : CallInvariant E I) (script : Script) :
    Triple ⟨fun _ => True, 0, I⟩ I (RenderM.attempt (script.run KeyedDom)) fun _ => I := by
  refine (Triple.attempt (x := ⟨_, 0, _⟩) (h.script script 0)).post fun result t g hi => ?_
  cases result <;> exact hi

theorem flushQueue (h : CallInvariant E I) :
    Triple ⟨fun _ => True, 0, I⟩ I RenderM.flushQueue fun _ => I :=
  .flushQueue (fun _ => trivial) fun _ _ _ hi he => h.grows hi he

theorem logQueueLength : Triple ⟨fun _ => True, 0, I⟩ I RenderM.logQueueLength fun _ => I :=
  .bind_renderer fun _ _ => Triple.log.pre fun _ _ hi => hi.2

theorem plan (h : CallInvariant E I) (plan : PassPlan)
    (hbegin : ∀ t g mode rule, P t g → Allows (fun _ => True) (fun r => I r.2 g)
      (KeyedDom.apply (.beginPatch plan.root mode rule) t)) (hP : ∀ t g, P t g → I t g) :
    Triple ⟨fun _ => True, 0, I⟩ P (plan.perform KeyedDom) fun _ => I := by
  cases plan with
  | bracketed root mode rule logger script =>
    exact .patch (fun t g hp => hbegin t g mode rule hp) (h.script script 0)
      (fun _ _ hi => h.call .endPatch trivial hi) h.flushQueue
  | direct root begins logger first second =>
    have hend : ∀ final : Except RenderError Unit, Triple ⟨fun _ => True, 0, I⟩ I (do
        RenderM.logQueueLength
        RenderM.flushQueue
        RenderM.resume final) fun _ => I := fun final => by
      refine .bind logQueueLength fun _ => .bind h.flushQueue fun _ => ?_
      cases final with
      | ok a => exact .pure fun _ _ hi => hi
      | error e => exact .fail fun _ _ hi => hi
    have hmain : Triple ⟨fun _ => True, 0, I⟩ I
        (RenderM.direct root false logger (first.run KeyedDom) (second.run KeyedDom))
        fun _ => I := by
      refine .bind (Quiet.setLogger logger).triple fun _ => ?_
      refine .bind (h.attempt first) fun result => .bind logQueueLength fun _ =>
        .bind h.flushQueue fun _ => .bind logQueueLength fun _ => ?_
      cases result with
      | ok a => exact .bind (h.attempt second) hend
      | error e => exact .bind (.pure fun _ _ hi => hi) hend
    cases begins with
    | false => exact hmain.pre hP
    | true => exact .bind (.callTarget fun t g hp => hbegin t g .inner .keyed hp) fun _ => hmain

end CallInvariant

end KeyedRender
