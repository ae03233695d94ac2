import KeyedRender.Proofs.Document.Attaching
import KeyedRender.Proofs.Document.Editing
import KeyedRender.Proofs.Render.Registry
import KeyedRender.Proofs.Script.Callers
import KeyedRender.Proofs.Script.Served
import KeyedRender.Proofs.Target.Editing
import KeyedRender.Proofs.Target.Slots

/-!
# Slots that a run fills

In a part of a run a slot is only filled with a component whose rendering has begun in that part.
Nodes keep their parents, and components are never forgotten.
-/
namespace KeyedRender

open RenderM

theorem side_size : Side fun sh sh' : Shared =>
    sh.registry.components.size ≤ sh'.registry.components.size where
  refl _ := Nat.le_refl _
  trans := Nat.le_trans
  log _ _ _ := Nat.le_refl _
  savedKeys _ _ := Nat.le_refl _
  learn sh id _ := (sh.registry.extends_learn id).size
  synchronize sh id := (sh.registry.extends_synchronize id).size
  created {sh c sh'} h := by
    have hold : sh.registry.components.size ≤ sh'.registry.components.size :=
      Nat.le_trans ((sh.registry.extends_create c).trans
        (Registry.extends_countRender _ sh.registry.components.size)).size h
    refine ⟨hold, fun root => Nat.le_trans hold (Nat.le_of_eq ?_)⟩
    exact (Registry.size_update _ _ _).symm

/-- What some moments lead to: nodes stay where they are, and a slot that is filled was filled
before, or with a component that one of the moments has begun. -/
structure Fills (ms : List (Moment KeyedDom)) (s t : RenderState KeyedDom) : Prop where
  size : s.shared.registry.components.size ≤ t.shared.registry.components.size
  parents : s.renderer.pass.target.document.SameParents t.renderer.pass.target.document
  slots : ∀ {n slot}, t.renderer.pass.target.document.slot? n = some slot →
    s.renderer.pass.target.document.slot? n = some slot ∨
      ∃ m ∈ ms, ∃ u, m.Begins slot.component u

namespace Fills

variable {ms ms' : List (Moment KeyedDom)} {s t : RenderState KeyedDom} {ctx : Context}

theorem isCourse : Course Fills where
  refl s := ⟨Nat.le_refl _, Document.editing_sameParents.refl _, .inl⟩
  append h h' := by
    refine ⟨Nat.le_trans h.size h'.size, Document.editing_sameParents.trans h.parents h'.parents,
      fun hslot => ?_⟩
    rcases h'.slots hslot with hslot | ⟨m, hm, hbegun⟩
    · exact (h.slots hslot).imp_right fun ⟨m, hm, hbegun⟩ =>
        ⟨m, List.mem_append_left _ hm, hbegun⟩
    · exact .inr ⟨m, List.mem_append_right _ hm, hbegun⟩

theorem more (h : Fills ms s t) (hms : ms ⊆ ms') : Fills ms' s t :=
  ⟨h.size, h.parents, fun hslot => (h.slots hslot).imp_right fun ⟨m, hm, hbegun⟩ =>
    ⟨m, hms hm, hbegun⟩⟩

theorem edit (hsize : s.shared.registry.components.size ≤ t.shared.registry.components.size)
    (hparents : s.renderer.pass.target.document.SameParents t.renderer.pass.target.document)
    (hslots : s.renderer.pass.target.document.SlotsWithin t.renderer.pass.target.document) :
    Fills ms s t :=
  ⟨hsize, hparents, fun hslot => .inl (hslots _ _ hslot)⟩

theorem quiet (htarget : t.renderer.pass.target = s.renderer.pass.target)
    (hsize : s.shared.registry.components.size ≤ t.shared.registry.components.size) :
    Fills ms s t := by
  refine edit hsize ?_ ?_
  · rw [htarget]
    exact Document.editing_sameParents.refl _
  · rw [htarget]
    exact .refl _

theorem callTarget {w : Bool} (call : TargetCall) :
    Traces w Fills (RenderM.callTarget call) .none := by
  intro ctx s t _ ht
  obtain ⟨node, hdone⟩ := callTarget_of_endsIn ht
  have happly : KeyedDom.apply call s.renderer.pass.target = .ok (node, t.renderer.pass.target) :=
    (callTarget_done hdone).1
  have hparents := KeyedDom.edited_apply Document.editing_sameParents call s.renderer.pass.target
    fun _ _ _ => .setComment _ _ _
  have hslots := KeyedDom.keepsSlots_apply call s.renderer.pass.target
  rw [happly] at hparents hslots
  refine edit (Nat.le_of_eq ?_) hparents hslots
  rw [registry_of_callTarget hdone]

theorem changeRenderer {w : Bool} {change : Renderer KeyedDom → Renderer KeyedDom}
    (h : ∀ r, (change r).pass.target = r.pass.target) :
    Traces w Fills (RenderM.changeRenderer change) .none := by
  intro ctx s t _ ht
  obtain rfl := Outcome.EndsIn.done_iff.1 ht
  exact quiet (h _) (Nat.le_refl _)

theorem updateRecord (s : RenderState KeyedDom) (node : NodeId) {change : NodeRecord → NodeRecord}
    (hc : ∀ r, (change r).slot = r.slot) : Fills ms s
      { s with renderer := s.renderer.setTarget (s.renderer.pass.target.setDocument
        (s.renderer.pass.target.document.updateRecord node change)) } := by
  refine edit (Nat.le_refl _) ?_ (.of_keeps (.updateRecord _ node hc))
  exact Document.sameParents_of_parent? (Document.size_updateElement ..)
    fun _ => Document.parent?_updateElement ..

theorem sameParents_attachedDocument (d : Document) (id : ComponentId) (c : Component)
    (root : NodeId) : d.SameParents (attachedDocument d id c root) :=
  Document.of_attachedDocument (Document.editing_sameParents.refl d) fun _ _ _ hd =>
    Document.editing_sameParents.trans hd <|
      Document.sameParents_of_parent? (Document.size_updateElement ..)
        fun _ => Document.parent?_updateElement ..

theorem attach {id : ComponentId} {root : NodeId} (hbegun : ∃ m ∈ ms, ∃ u, m.Begins id u)
    (ht : RenderM.attach id root ctx s = .done () t) : Fills ms s t := by
  rcases attach_of_endsIn (.inl ⟨_, ht⟩) with rfl | ⟨-, c, -, rfl⟩
  · exact quiet rfl (Nat.le_refl _)
  refine ⟨(Registry.Grows.attached _ _ id c root).size, sameParents_attachedDocument _ id c root,
    fun {n slot} hslot => ?_⟩
  rcases Document.slot?_attachedDocument hslot with ⟨-, rfl | ⟨rfl, -⟩, -⟩ | ⟨-, hold⟩
  · exact .inr hbegun
  · exact .inr hbegun
  · exact .inl (Document.slotsWithin_detach _ _ _ _ _ hold)

theorem trail (w : Bool) : Trail (fun sh sh' =>
    sh.registry.components.size ≤ sh'.registry.components.size) w Fills where
  toCourse := isCourse
  plain _ _ := quiet rfl (Nat.le_refl _)
  aside h := quiet rfl h
  keys s change := quiet (s.renderer.target_changeKeys change) (Nat.le_refl _)
  logger s logger := quiet (s.renderer.target_setLogger logger) (Nat.le_refl _)
  marked s := quiet (congrArg Pass.target s.renderer.pass_markRendered) (Nat.le_refl _)
  popped _ h := ⟨h.size, h.parents, h.slots⟩
  call hw _ h := callTarget _ _ _ _ hw (.inl ⟨_, h⟩)
  blob {s} node markup _ := updateRecord s node fun _ => rfl
  server {ctx s t} name key parameters hw _ ht := by
    have hopened : Fills [] s t :=
      Traces.openServerElement isCourse (fun call _ => callTarget call) (changeRenderer fun r => by
        rw [Renderer.pass_markRendered]) (fun node _ ctx s t _ ht => by
        obtain rfl := Outcome.EndsIn.done_iff.1 ht
        exact updateRecord s node fun _ => rfl) name key parameters ctx s t hw ht
    exact hopened.more (List.nil_subset _)
  skippedServer _ _ _ _ := quiet rfl (Nat.le_refl _)
  toDefault _ ht := by
    rcases toDefault_of_endsIn ht with rfl | rfl
    · exact quiet rfl (Nat.le_refl _)
    · exact quiet (Renderer.target_handBackLogger _) (Nat.le_refl _)
  requeue index _ ht := by
    rcases requeue_of_endsIn ht with ⟨-, rfl⟩ | ⟨id, -, rfl⟩
    · exact quiet rfl (Nat.le_refl _)
    · exact quiet (Renderer.target_enqueue _ id) (Nat.le_refl _)
  probed _ _ := quiet rfl (Nat.le_refl _)
  component {spec ctx s id u ms v} _ _ hbegin h := by
    have hbegun : Fills [⟨.component spec, ctx, s⟩] s u :=
      quiet (by rw [beginComponent_renderer hbegin, Renderer.target_enqueue])
        (extends_of_beginComponent hbegin).size
    have hcomponent := isCourse.append hbegun h
    refine ⟨hcomponent, fun {root t} ht => ?_⟩
    have hattached : Fills (⟨.component spec, ctx, s⟩ :: ms) v t :=
      attach ⟨_, List.mem_cons_self, u, spec, rfl, hbegin⟩ ht
    exact (isCourse.append hcomponent hattached).more (by simp)

theorem guides (w : Bool) : Guides (fun _ => True) w Fills :=
  .of_path side_size (trail w).path fun _ _ => quiet rfl (Nat.le_refl _)

end Fills

end KeyedRender
