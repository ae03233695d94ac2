import KeyedRender.Proofs.Target.Calling

/-!
# Slots and components

A slot and its component name each other: the component keeps the node whose slot holds it. A
component that is no longer attached and cannot be returned by any call is lost for good.
-/
namespace KeyedRender

open Document (slot?)

/-- Conditions that hold however slots are emptied, and that attaching one of some components
keeps. -/
structure SlotInvariant (E : ComponentId → Prop) (I : Document → Registry → Prop) : Prop where
  within : ∀ {d d' g}, I d g → d.SlotsWithin d' → I d' g
  grows : ∀ {d g g'}, I d g → g.Extends g' → I d g'
  created : ∀ {d g}, I d g → E g.components.size
  held : ∀ {d g n s}, I d g → d.slot? n = some s → E s.component
  attached : ∀ {d g id c} root, I d g → E id → g.component? id = some c →
    I (attachedDocument d id c root) (attachedRegistry d g id c root)

namespace SlotInvariant

variable {E : ComponentId → Prop} {I : Document → Registry → Prop}

def scope (E : ComponentId → Prop) : Scope KeyedDom :=
  ⟨fun _ => True, fun _ => True, E, fun _ => True, fun _ _ => True⟩

theorem call (h : SlotInvariant E I) {t : KeyedDom} {g : Registry} (hi : I t.document g)
    (call : TargetCall) :
    Allows (fun _ => True) (fun r => I r.2.document g) (KeyedDom.apply call t) :=
  (KeyedDom.keepsSlots_apply call t).mono fun _ hr => h.within hi hr

theorem calls (h : SlotInvariant E I) : CallInvariant E fun t g => I t.document g where
  call call _ hi := h.call hi call
  recorded node hc hi := h.within hi (.of_keeps (.updateRecord _ node hc))
  grows hi he := h.grows hi he
  created hi := h.created hi
  found hi hid := by
    obtain ⟨n, -, s, hs, rfl, -⟩ := slot_of_findAttached? hid
    exact h.held hi hs
  attached root hi hid hc := h.attached root hi hid hc

theorem stable (h : SlotInvariant E I) (n : Nat) :
    Stable (scope E) n fun _ t g => I t.document g := h.calls.stable n

theorem script (h : SlotInvariant E I) (script : Script) (n : Nat) :
    Triple ⟨fun _ => True, n, fun t g => I t.document g⟩ (fun t g => I t.document g)
      (script.run KeyedDom) fun _ t g => I t.document g := h.calls.script script n

theorem plan (h : SlotInvariant E I) (plan : PassPlan) :
    Triple ⟨fun _ => True, 0, fun t g => I t.document g⟩ (fun t g => I t.document g)
      (plan.perform KeyedDom) fun _ t g => I t.document g :=
  h.calls.plan plan (fun _ _ _ _ hi => h.call hi _) fun _ _ hi => hi

end SlotInvariant

def Linked (d : Document) (g : Registry) : Prop :=
  ∀ n s, d.slot? n = some s → ∃ c, g.component? s.component = some c ∧ c.node = some n ∧
    s.tag = c.type.tag ∧ s.key = c.key

theorem Linked.unique {d : Document} {g : Registry} (h : Linked d g) {n n' : NodeId}
    {s s' : ComponentSlot} (hs : d.slot? n = some s) (hs' : d.slot? n' = some s')
    (heq : s'.component = s.component) : n' = n := by
  obtain ⟨c, hc, hn, -⟩ := h n s hs
  obtain ⟨c', hc', hn', -⟩ := h n' s' hs'
  rw [heq, hc] at hc'
  obtain rfl := Option.some.inj hc'
  exact Option.some.inj (hn'.symm.trans hn)

theorem component?_attachedRegistry {d : Document} {g : Registry} {id : ComponentId}
    {c : Component} {root : NodeId} (other : ComponentId) :
    (attachedRegistry d g id c root).component? other =
      if id = other ∧ ((RenderM.detach d id c.node root).record? root).isSome then
        (g.component? other).map (.placeAt root)
      else g.component? other := by
  unfold attachedRegistry
  split
  · next hr =>
    rw [Registry.component?_update]
    by_cases hid : id = other
    · rw [if_pos hid, if_pos ⟨hid, hr⟩]
    · rw [if_neg hid, if_neg fun h => hid h.1]
  · next hr => rw [if_neg fun h => hr h.2]

theorem slotInvariant_linked : SlotInvariant (fun _ => True) Linked where
  within h hw n s hs := h n s (hw n s hs)
  grows h he n s hs := by
    obtain ⟨c, hc, hn, htag, hkey⟩ := h n s hs
    obtain ⟨c', hc', htype', hkey', hnode'⟩ := he.kept hc
    exact ⟨c', hc', hnode'.trans hn, htype' ▸ htag, hkey' ▸ hkey⟩
  created _ := trivial
  held _ _ := trivial
  attached {d g id c} root h _ hc n s hs := by
    rw [component?_attachedRegistry]
    rcases Document.slot?_attachedDocument hs with ⟨rfl, hslot, hrecord⟩ | ⟨hne, hdetached⟩
    · have hcomponent : s.component = id ∧ s.tag = c.type.tag ∧ s.key = c.key := by
        rcases hslot with rfl | ⟨hid, hold⟩
        · exact ⟨rfl, rfl, rfl⟩
        · obtain ⟨c', hc', -, htag, hkey⟩ := h n s hold
          rw [hid, hc] at hc'
          obtain rfl := Option.some.inj hc'
          exact ⟨hid, htag, hkey⟩
      obtain ⟨rfl, htag, hkey⟩ := hcomponent
      refine ⟨c.placeAt n, ?_, rfl, htag, hkey⟩
      rw [if_pos ⟨rfl, hrecord⟩, hc]
      rfl
    · have hold : d.slot? n = some s := Document.slotsWithin_detach _ _ _ n s hdetached
      obtain ⟨c', hc', hn, htag, hkey⟩ := h n s hold
      -- If this slot held the component, it would be the one that was just emptied.
      have hother : id ≠ s.component := by
        rintro rfl
        rw [hc] at hc'
        obtain rfl := Option.some.inj hc'
        have hholds : RenderM.Holds d n s.component := Document.holds_iff.2 ⟨s, hold, rfl⟩
        rw [Document.slot?_detach, if_pos ⟨hn, hne, hholds⟩] at hdetached
        cases hdetached
      exact ⟨c', by rw [if_neg fun h => hother h.1, hc'], hn, htag, hkey⟩

def Unattached (id : ComponentId) (d : Document) (g : Registry) : Prop :=
  id < g.components.size ∧ ∀ n s, d.slot? n = some s → s.component ≠ id

theorem slotInvariant_unattached (id : ComponentId) :
    SlotInvariant (· ≠ id) (Unattached id) where
  within h hw := ⟨h.1, fun n s hs => h.2 n s (hw n s hs)⟩
  grows h he := ⟨Nat.lt_of_lt_of_le h.1 he.size, h.2⟩
  created h := Nat.ne_of_gt h.1
  held h hs := h.2 _ _ hs
  attached {d g other c} root h hother _ := by
    refine ⟨?_, fun n s hs => ?_⟩
    · unfold attachedRegistry
      split
      · rw [Registry.size_update]
        exact h.1
      · exact h.1
    · rcases Document.slot?_attachedDocument hs with ⟨-, rfl | ⟨hid, -⟩, -⟩ | ⟨-, hold⟩
      · exact hother
      · exact hid ▸ hother
      · exact h.2 n s (Document.slotsWithin_detach _ _ _ n s hold)

end KeyedRender
