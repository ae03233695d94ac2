import KeyedRender.Proofs.Document.Slots
import KeyedRender.Proofs.Target.Records

/-!
# Slots and calls

No call of a target fills a slot, whatever state the target is in. By its slot a component is found
again.
-/
namespace KeyedRender

theorem slot_of_findAttached? {d : Document} {g : Registry} {type : ComponentType} {key : String}
    {l : List NodeId} {id : ComponentId}
    (h : RenderM.findAttached? d g type key l = some id) : ∃ n ∈ l, ∃ s, d.slot? n = some s ∧
      s.component = id ∧ s.tag = type.tag ∧ Key.isMatchingText key s.key ∧
      (g.component? id).map Component.type = some type := by
  induction l with
  | nil => cases h
  | cons n rest ih =>
    have later : RenderM.findAttached? d g type key rest = some id → ∃ m ∈ n :: rest, ∃ s,
        d.slot? m = some s ∧ s.component = id ∧ s.tag = type.tag ∧ Key.isMatchingText key s.key ∧
        (g.component? id).map Component.type = some type := fun hrest => by
      obtain ⟨m, hm, hs⟩ := ih hrest
      exact ⟨m, List.mem_cons_of_mem _ hm, hs⟩
    unfold RenderM.findAttached? at h
    split at h
    · exact later h
    · next s hs =>
      split at h
      · next hmatch =>
        obtain rfl : s.component = id := Option.some.inj h
        exact ⟨n, List.mem_cons_self, s, hs, rfl, hmatch⟩
      · exact later h

def KeepsSlots {α : Type} (d : Document) (result : α → Document) (r : Except Fault α) : Prop :=
  Allows (fun _ => True) (fun a => d.SlotsWithin (result a)) r

theorem KeepsSlots.of_records {α : Type} {d : Document} {result : α → Document}
    {r : Except Fault α} (h : KeepsRecords NodeRecord.slot d result r) : KeepsSlots d result r :=
  h.mono fun _ hr => .of_keeps hr

namespace KeyedDom

theorem slotsWithin_setComment (t : KeyedDom) (id : NodeId) (value : String) :
    t.document.SlotsWithin (t.setComment id value).document := .of_keeps (keeps_setComment t id value)

theorem keepsSlots_apply (call : TargetCall) (t : KeyedDom) :
    KeepsSlots t.document (fun r => r.2.document) (apply call t) :=
  .of_records (keepsRecords_apply call t)

end KeyedDom

namespace MarkupWriter

open Document (Keeps SlotsWithin)

theorem slotsWithin_step (call : TargetCall) (w : MarkupWriter) :
    w.document.SlotsWithin (w.step call).2.document := .of_keeps (keeps_step call w)

def scope (fault : Fault → Prop) (step : Instruction → Prop) (g : Registry) : Scope MarkupWriter :=
  ⟨fault, step, (g.components.size ≤ ·), fun _ => True, fun _ _ => True⟩

def Fresh (g : Registry) : Condition MarkupWriter := fun w g' =>
  g.Extends g' ∧ ∀ id s, w.document.slot? id = some s → g.components.size ≤ s.component

theorem Fresh.step {g g' : Registry} {w : MarkupWriter} (h : Fresh g w g') (call : TargetCall) :
    Fresh g (w.step call).2 g' :=
  ⟨h.1, fun id s hs => h.2 id s (slotsWithin_step call w id s hs)⟩

theorem extends_attachedRegistry {g g' : Registry} (h : g.Extends g') (d : Document)
    {id : ComponentId} (hid : g.components.size ≤ id) (c : Component) (root : NodeId) :
    g.Extends (attachedRegistry d g' id c root) := by
  unfold attachedRegistry
  split
  · refine ⟨by rw [Registry.size_update]; exact h.size, fun {other c'} hc => ?_⟩
    have hne : id ≠ other := Nat.ne_of_gt
      (Nat.lt_of_lt_of_le (Registry.lt_size_of_component? hc) hid)
    rw [Registry.component?_update, if_neg hne]
    exact h.kept hc
  · exact h

theorem stable {fault : Fault → Prop} (hf : ∀ id, fault (.reentered id)) (step : Instruction → Prop)
    (g : Registry) : Stable (scope fault step g) 0 fun _ => Fresh g where
  reentered := hf
  grows h he := ⟨h.1.trans he, h.2⟩
  created h := h.1.size
  opened _ _ _ _ name key h := ⟨h.step (.openElement name key), fun _ _ => ⟨trivial, trivial⟩⟩
  closed _ _ _ _ h := h.step .closeElement
  wrote _ _ _ _ value h := ⟨h.step (.text value), fun _ _ => trivial⟩
  assigned _ _ _ _ call _ h := ⟨h.step call, fun _ _ => trivial⟩
  stayed _ _ _ _ call _ h := h.step call
  appended _ _ _ _ node value h _ := h.step (.appendComment node value)
  filled _ _ _ _ node markup h _ := ⟨h.step (.setInnerMarkup node markup), trivial⟩
  recorded _ _ _ _ node _ h _ hc :=
    ⟨h.1, fun id s hs => h.2 id s (SlotsWithin.of_keeps (Keeps.updateRecord _ node hc) id s hs)⟩
  described _ _ _ _ _ _ _ := ⟨trivial, trivial⟩
  found _ _ t _ type key id _ hid := by
    change RenderM.findAttached? t.document _ type key (t.document.siblingsFrom none) = _ at hid
    rw [Document.siblingsFrom_none] at hid
    cases hid
  attached _ _ t g' id root c h hid _ _ := by
    refine ⟨extends_attachedRegistry h.1 _ hid c root, fun n s hs => ?_⟩
    rcases Document.slot?_attachedDocument hs with ⟨-, hs | hs, -⟩ | ⟨-, hs⟩
    · exact hs ▸ hid
    · exact hs.1 ▸ hid
    · exact h.2 n s (Document.slotsWithin_detach _ _ _ n s hs)
  direct _ _ _ _ _ call h _ _ := h.step call
  inspected _ _ _ _ _ _ _ := trivial

end MarkupWriter

end KeyedRender
