import KeyedRender.Proofs.Script.Reentry
import KeyedRender.Proofs.Session.Arrivals

/-!
# Known components

A component becomes known when it has been rendered, so that in every session that is reached the
known components are among those that were created. So they are at every step of a pass, and so are
the components that are rendering then.
-/
namespace KeyedRender

open RenderM

structure Registry.Introduces (g g' : Registry) : Prop where
  size : g.components.size ≤ g'.components.size
  known : ∀ id ∈ g'.known, id ∈ g.known ∨ id < g'.components.size

namespace Registry.Introduces

variable {g g' g'' : Registry}

theorem same (hsize : g.components.size ≤ g'.components.size) (hknown : g'.known = g.known) :
    g.Introduces g' := ⟨hsize, fun _ hid => .inl (hknown ▸ hid)⟩

theorem refl (g : Registry) : g.Introduces g := same (Nat.le_refl _) rfl

theorem trans (h : g.Introduces g') (h' : g'.Introduces g'') : g.Introduces g'' := by
  refine ⟨Nat.le_trans h.size h'.size, fun id hid => ?_⟩
  rcases h'.known id hid with hid | hlt
  · exact (h.known id hid).imp_right fun hlt => Nat.lt_of_lt_of_le hlt h'.size
  · exact .inr hlt

theorem update (g : Registry) (id : ComponentId) (change : Component → Component) :
    g.Introduces (g.update id change) := same (Nat.le_of_eq (g.size_update id change).symm) rfl

theorem learn {id : ComponentId} (hid : id < g.components.size) : g.Introduces (g.learn id) := by
  refine ⟨(g.extends_learn id).size, fun other hother => ?_⟩
  unfold Registry.learn at hother ⊢
  split at hother
  · exact .inl hother
  · next hnew =>
    rw [if_neg hnew]
    rcases List.mem_append.1 hother with hold | hlast
    · exact .inl hold
    · obtain rfl := List.mem_singleton.1 hlast
      exact .inr hid

theorem attached (d : Document) (g : Registry) (id : ComponentId) (c : Component) (root : NodeId) :
    g.Introduces (attachedRegistry d g id c root) := by
  unfold attachedRegistry
  split
  · exact update g id _
  · exact refl g

theorem create (g : Registry) (c : Component) : g.Introduces (g.create c).2 :=
  same (g.extends_create c).size rfl

theorem lt_size (h : g.Introduces g') (hg : ∀ id ∈ g.known, id < g.components.size) :
    ∀ id ∈ g'.known, id < g'.components.size := fun id hid =>
  (h.known id hid).elim (fun hid => Nat.lt_of_lt_of_le (hg id hid) h.size) fun hlt => hlt

end Registry.Introduces

theorem side_introduces : Side fun sh sh' => sh.registry.Introduces sh'.registry where
  refl sh := .refl sh.registry
  trans := .trans
  log _ _ sh := .refl sh.registry
  savedKeys sh _ := .refl sh.registry
  learn _ _ hid := .learn hid
  synchronize sh id := .update sh.registry id _
  created {sh c sh'} h := by
    have hold : sh.registry.Introduces sh'.registry :=
      ((Registry.Introduces.create sh.registry c).trans (.update _ _ _)).trans h
    exact ⟨hold, fun root => hold.trans (.update _ _ _)⟩

abbrev Introducing : List (Moment KeyedDom) → RenderState KeyedDom → RenderState KeyedDom → Prop :=
  Side.course fun sh sh' => sh.registry.Introduces sh'.registry

namespace Introducing

variable {w : Bool}

theorem isCourse : Course Introducing := side_introduces.isCourse

theorem changeRenderer (change : Renderer KeyedDom → Renderer KeyedDom) :
    Traces w Introducing (RenderM.changeRenderer change) .none := by
  intro ctx s t _ ht
  obtain rfl := Outcome.EndsIn.done_iff.1 ht
  exact side_introduces.refl _

theorem callTarget (call : TargetCall) : Traces w Introducing (RenderM.callTarget call) .none := by
  intro ctx s t _ ht
  obtain ⟨node, hdone⟩ := callTarget_of_endsIn ht
  have hregistry := registry_of_callTarget hdone
  exact .same (Nat.le_of_eq (by rw [hregistry])) (by rw [hregistry])

theorem trail (w : Bool) :
    Trail (fun sh sh' => sh.registry.Introduces sh'.registry) w Introducing where
  toCourse := isCourse
  plain m _ := side_introduces.refl _
  aside h := h
  keys s _ := side_introduces.refl s.shared
  logger s _ := side_introduces.refl s.shared
  marked s := side_introduces.refl s.shared
  popped _ h := h
  call hw _ h := callTarget _ _ _ _ hw (.inl ⟨_, h⟩)
  blob {s} _ _ _ := side_introduces.refl s.shared
  server name key parameters hw _ ht :=
    Traces.openServerElement isCourse (fun call _ => callTarget call) (changeRenderer _)
      (fun _ _ => changeRenderer _) name key parameters _ _ _ hw ht
  skippedServer {ctx s} _ _ _ _ := side_introduces.refl s.shared
  toDefault {ctx s t} _ ht := by
    rcases toDefault_of_endsIn ht with rfl | rfl
    · exact side_introduces.refl _
    · exact side_introduces.refl s.shared
  requeue {ctx s t} _ _ ht := by
    rcases requeue_of_endsIn ht with ⟨-, rfl⟩ | ⟨id, -, rfl⟩
    · exact side_introduces.refl _
    · exact side_introduces.refl s.shared
  probed {ctx s} _ _ := side_introduces.refl s.shared
  component {spec ctx s id u ms v} _ _ hbegin h := by
    have hbegun : s.shared.registry.Introduces u.shared.registry := by
      rcases (beginComponent_cases hbegin).2 with hu | ⟨type, key, label, hu⟩
      · rw [hu]
        exact .update _ _ _
      · rw [hu]
        exact (Registry.Introduces.create _ _).trans (.update _ _ _)
    have hrendered : s.shared.registry.Introduces v.shared.registry := hbegun.trans h
    refine ⟨hrendered, fun {root t} ht => ?_⟩
    rcases attach_of_endsIn (.inl ⟨_, ht⟩) with rfl | ⟨-, c, -, rfl⟩
    · exact hrendered
    · exact hrendered.trans (.attached _ _ id c root)

theorem changeShared {change : Shared → Shared}
    (h : ∀ sh : Shared, sh.registry.Introduces (change sh).registry) :
    Traces w Introducing (RenderM.changeShared change) .none := by
  intro ctx s t _ ht
  obtain rfl := Outcome.EndsIn.done_iff.1 ht
  exact h s.shared

theorem logQueueLength : Traces w Introducing RenderM.logQueueLength .none :=
  .renderer isCourse fun _ => changeShared fun sh => .refl sh.registry

theorem flushQueue : Traces w Introducing RenderM.flushQueue .none :=
  .flushQueue isCourse (changeRenderer _) fun id =>
    .before isCourse (changeShared fun sh => .update sh.registry id _) fun _ =>
      changeShared fun sh => .refl sh.registry

theorem script (script : Script) : Traces w Introducing (script.run KeyedDom) script.moments :=
  script.traces side_introduces (trail w).path

theorem pass (plan : PassPlan) : Traces w Introducing (plan.perform KeyedDom) plan.moments :=
  .plan isCourse (fun call _ => callTarget call) (fun _ => changeRenderer _) logQueueLength
    flushQueue script plan

theorem approaches (plan : PassPlan) : Approaches w Introducing plan.moments :=
  .plan isCourse (fun call _ => callTarget call) (fun _ => changeRenderer _) logQueueLength
    flushQueue script (fun script => script.approaches
      (.of_path side_introduces (trail w).path fun s _ => .refl s.shared.registry)
      script.all_trivial) plan

end Introducing

namespace Session

theorem perform_introduces {s s' : Session KeyedDom} {a : Act} (h : s.perform a = .ok s') :
    s.registry.Introduces s'.registry := by
  have edited : a.IsEdit → s.registry.Introduces s'.registry := fun ha => by
    have hedited := edited_perform Document.editing_sameParents.reshaping.toRestructuring s ha
    rw [h] at hedited
    exact hedited.2 ▸ .refl _
  cases a with
  | pass settings plan =>
    obtain ⟨t, ht, rfl⟩ := endsIn_of_perform h
    exact Introducing.pass (w := true) plan (context settings) s.initial t rfl ht
  | _ => exact edited trivial

theorem Reached.known_lt_size {allowed : Session KeyedDom → Act → Prop} {s : Session KeyedDom}
    (h : Reached allowed s) : ∀ id ∈ s.registry.known, id < s.registry.components.size := by
  induction h with
  | start => exact fun _ hid => absurd hid List.not_mem_nil
  | act _ _ hs ih => exact (perform_introduces hs).lt_size ih

theorem Reached.created_of_momentsOf {allowed : Session KeyedDom → Act → Prop}
    {s : Session KeyedDom} (h : Reached allowed s) {a : Act} {m : Moment KeyedDom}
    (hm : m ∈ s.momentsOf a) :
    (∀ id ∈ m.context.rendering, id < m.state.shared.registry.components.size) ∧
      ∀ id ∈ m.state.shared.registry.known, id < m.state.shared.registry.components.size := by
  cases a with
  | pass settings plan =>
    obtain ⟨before, after, hsplit⟩ := List.append_of_mem hm
    have happroach := Introducing.approaches (w := true) plan (context settings) s.initial before m
      after rfl hsplit
    exact ⟨happroach.known (fun h => h.size) (by simp [context]),
      happroach.course.lt_size h.known_lt_size⟩
  | _ => exact absurd hm List.not_mem_nil

end Session

end KeyedRender
