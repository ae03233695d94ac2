import KeyedRender.Proofs.Payload.Delimited
import Mathlib.Data.List.Sort
import Mathlib.Data.String.Basic

/-!
# Payloads with the same members

Two trees are the same if their objects have the same members, whatever the order. In a payload the
members of an object are in the order of their names, no name twice, so that payloads are the same
only if they are equal.
-/
namespace KeyedRender

namespace Json

/-- The same kind of payload with the same value: items one by one, members by name. -/
inductive Same : Json → Json → Prop
  | null : Same null null
  | bool (value : Bool) : Same (bool value) (bool value)
  | int (n : Int) : Same (int n) (int n)
  | float (negative : Bool) (position : Binary64.Position) :
      Same (float negative position) (float negative position)
  | text (s : String) : Same (text s) (text s)
  | list {items items' : List Json} (length : items.length = items'.length)
      (parts : ∀ i (h : i < items.length) (h' : i < items'.length), Same items[i] items'[i]) :
      Same (list items) (list items')
  | object {members members' : List (String × Json)}
      (names : ∀ name, name ∈ members.map (·.1) ↔ name ∈ members'.map (·.1))
      (parts : ∀ {name value value'}, (name, value) ∈ members → (name, value') ∈ members' →
        Same value value') :
      Same (object members) (object members')

section Sorted

variable {members members' : List (String × Json)}

theorem mem_of_same_members
    (hnames : ∀ name, name ∈ members.map (·.1) ↔ name ∈ members'.map (·.1))
    (hparts : ∀ {name value value'}, (name, value) ∈ members → (name, value') ∈ members' →
      value = value') (m : String × Json) :
    m ∈ members ↔ m ∈ members' := by
  obtain ⟨name, value⟩ := m
  constructor
  · intro hm
    obtain ⟨⟨_, value'⟩, hm', rfl⟩ := List.mem_map.1 ((hnames name).1 (List.mem_map_of_mem hm))
    rwa [hparts hm hm']
  · intro hm'
    obtain ⟨⟨_, value⟩, hm, rfl⟩ := List.mem_map.1 ((hnames name).2 (List.mem_map_of_mem hm'))
    rwa [← hparts hm hm']

theorem value_unique (hnames : members.Pairwise (·.1 < ·.1)) {name : String}
    {value value' : Json} (h : (name, value) ∈ members) (h' : (name, value') ∈ members) :
    value = value' := by
  have hnodup : (members.map (·.1)).Nodup :=
    List.pairwise_map.2 (hnames.imp fun hlt => ne_of_lt hlt)
  exact congrArg Prod.snd (List.inj_on_of_nodup_map hnodup h h' rfl)

theorem Ordered.same_self {p : Json} (h : p.Ordered) : Same p p := by
  induction h with
  | null => exact .null
  | bool value => exact .bool value
  | int n => exact .int n
  | float negative position => exact .float negative position
  | text s => exact .text s
  | list parts ih => exact .list rfl fun i h _ => ih _ (List.getElem_mem h)
  | object names parts ih =>
    refine .object (fun _ => Iff.rfl) fun {name value value'} hm hm' => ?_
    obtain rfl := value_unique names hm hm'
    exact ih _ hm

theorem Same.eq {p q : Json} (h : Same p q) (hp : p.Ordered) (hq : q.Ordered) : p = q := by
  induction h with
  | null => rfl
  | bool value => rfl
  | int n => rfl
  | float negative position => rfl
  | text s => rfl
  | @list items items' length parts ih =>
    cases hp with | list hparts =>
    cases hq with | list hparts' =>
    have hitems : items = items' := List.ext_getElem length fun i h h' =>
      ih i h h' (hparts _ (List.getElem_mem h)) (hparts' _ (List.getElem_mem h'))
    rw [hitems]
  | object names parts ih =>
    cases hp with | object hnames hparts =>
    cases hq with | object hnames' hparts' =>
    have hmem := mem_of_same_members names fun hm hm' => ih hm hm' (hparts _ hm) (hparts' _ hm')
    rw [hnames.eq_of_mem_iff hnames' hmem]

theorem same_iff_eq {p q : Json} (hp : p.Ordered) (hq : q.Ordered) : Same p q ↔ p = q :=
  ⟨fun h => h.eq hp hq, fun h => h ▸ hp.same_self⟩

end Sorted

end Json

namespace Payload

def Same (p q : Payload) : Prop := p.tree.Same q.tree

theorem same_iff_eq {p q : Payload} : p.Same q ↔ p = q :=
  (Json.same_iff_eq p.ordered q.ordered).trans Payload.ext_iff.symm

end Payload

end KeyedRender
