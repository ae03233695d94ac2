import KeyedRender.Proofs.Render.Stable
import Mathlib.Data.List.Basic

/-!
# How a registry goes on

A registry that goes on forgets nothing. Most of what changes are counts: how often a component was
rendered and synchronized.
-/
namespace KeyedRender

structure Registry.Grows (g g' : Registry) : Prop where
  size : g.components.size ≤ g'.components.size
  kept : ∀ {id c}, g.component? id = some c →
    ∃ c', g'.component? id = some c' ∧ c'.type = c.type ∧ c'.key = c.key
  known : g.known <+: g'.known

namespace Registry.Grows

variable {g g' g'' : Registry} {id : ComponentId}

theorem of_extends (h : g.Extends g') (hknown : g.known <+: g'.known) : g.Grows g' := by
  refine ⟨h.size, fun hc => ?_, hknown⟩
  obtain ⟨c', hc', htype, hkey, -⟩ := h.kept hc
  exact ⟨c', hc', htype, hkey⟩

theorem refl (g : Registry) : g.Grows g := .of_extends (.refl g) List.prefix_rfl

theorem trans (h : g.Grows g') (h' : g'.Grows g'') : g.Grows g'' := by
  refine ⟨Nat.le_trans h.size h'.size, fun hc => ?_, h.known.trans h'.known⟩
  obtain ⟨c', hc', htype, hkey⟩ := h.kept hc
  obtain ⟨c'', hc'', htype', hkey'⟩ := h'.kept hc'
  exact ⟨c'', hc'', htype'.trans htype, hkey'.trans hkey⟩

theorem learn (g : Registry) (id : ComponentId) : g.Grows (g.learn id) := by
  refine .of_extends (g.extends_learn id) ?_
  unfold Registry.learn
  split
  · exact List.prefix_rfl
  · exact List.prefix_append _ _

theorem attached (d : Document) (g : Registry) (id : ComponentId) (c : Component) (root : NodeId) :
    g.Grows (attachedRegistry d g id c root) := by
  unfold attachedRegistry
  split
  · refine ⟨Nat.le_of_eq (g.size_update id _).symm, fun {other c'} hc => ?_, List.prefix_rfl⟩
    rw [Registry.component?_update, hc]
    split
    · exact ⟨_, rfl, rfl, rfl⟩
    · exact ⟨_, rfl, rfl, rfl⟩
  · exact .refl g

theorem mem_known (h : g.Grows g') (hid : id ∈ g.known) : id ∈ g'.known := h.known.subset hid

theorem idxOf_known (h : g.Grows g') (hid : id ∈ g.known) :
    g'.known.idxOf id = g.known.idxOf id := by
  obtain ⟨more, hmore⟩ := h.known
  rw [← hmore, List.idxOf_append_of_mem hid]

end Registry.Grows

theorem Registry.mem_known_learn (g : Registry) (id : ComponentId) : id ∈ (g.learn id).known := by
  unfold Registry.learn
  split
  · assumption
  · simp

structure Registry.Recounts (g g' : Registry) : Prop where
  kept : g.Extends g'
  size : g'.components.size = g.components.size
  known : g'.known = g.known

namespace Registry.Recounts

variable {g g' g'' : Registry} {id : ComponentId} {c : Component} {root : NodeId}

theorem refl (g : Registry) : g.Recounts g := ⟨.refl g, rfl, rfl⟩

theorem trans (h : g.Recounts g') (h' : g'.Recounts g'') : g.Recounts g'' :=
  ⟨h.kept.trans h'.kept, h'.size.trans h.size, h'.known.trans h.known⟩

theorem grows (h : g.Recounts g') : g.Grows g' :=
  .of_extends h.kept (h.known ▸ List.prefix_rfl)

theorem countRender (g : Registry) (id : ComponentId) :
    g.Recounts (g.update id Component.countRender) :=
  ⟨g.extends_countRender id, g.size_update id _, rfl⟩

theorem synchronize (g : Registry) (id : ComponentId) :
    g.Recounts (g.update id Component.synchronize) :=
  ⟨g.extends_synchronize id, g.size_update id _, rfl⟩

theorem placeAt (hc : g.component? id = some c) (hnode : c.node = some root) :
    g.Recounts (g.update id (.placeAt root)) := by
  refine ⟨⟨Nat.le_of_eq (g.size_update id _).symm, fun {other c'} hc' => ?_⟩,
    g.size_update id _, rfl⟩
  rw [Registry.component?_update, hc']
  split
  · next heq =>
    subst heq
    obtain rfl := Option.some.inj (hc.symm.trans hc')
    exact ⟨_, rfl, rfl, rfl, hnode.symm⟩
  · exact ⟨_, rfl, rfl, rfl, rfl⟩

end Registry.Recounts

end KeyedRender
