import KeyedRender.Proofs.Document.Siblings
import KeyedRender.Proofs.Target.Confined

/-!
# Inside an element

While an element is open, scripts that stay inside keep everything around it: other elements, the
frames below, and the slots with their components. A component that was attached around the
element, or is about to be attached to it, cannot be found inside.
-/
namespace KeyedRender

open Document (Below Beneath Fenced)

structure Registry.Keeps (g g' : Registry) : Prop where
  size : g.components.size ≤ g'.components.size
  kept : ∀ {id c}, g.component? id = some c →
    ∃ c', g'.component? id = some c' ∧ c'.type = c.type ∧ c'.key = c.key

namespace Registry.Keeps

variable {g g' g'' : Registry}

theorem refl (g : Registry) : g.Keeps g := ⟨Nat.le_refl _, fun h => ⟨_, h, rfl, rfl⟩⟩

theorem trans (h : g.Keeps g') (h' : g'.Keeps g'') : g.Keeps g'' := by
  refine ⟨Nat.le_trans h.size h'.size, fun hc => ?_⟩
  obtain ⟨c', hc', htype, hkey⟩ := h.kept hc
  obtain ⟨c'', hc'', htype', hkey'⟩ := h'.kept hc'
  exact ⟨c'', hc'', htype'.trans htype, hkey'.trans hkey⟩

theorem of_extends (h : g.Extends g') : g.Keeps g' := by
  refine ⟨h.size, fun hc => ?_⟩
  obtain ⟨c', hc', htype, hkey, -⟩ := h.kept hc
  exact ⟨c', hc', htype, hkey⟩

theorem attached (d : Document) (g : Registry) (id : ComponentId) (c : Component) (root : NodeId) :
    g.Keeps (attachedRegistry d g id c root) := by
  refine ⟨?_, fun {other c'} hc' => ?_⟩
  · unfold attachedRegistry
    split
    · exact Nat.le_of_eq (Registry.size_update ..).symm
    · exact Nat.le_refl _
  · rw [component?_attachedRegistry, hc']
    split
    · exact ⟨c'.placeAt root, rfl, rfl, rfl⟩
    · exact ⟨c', rfl, rfl, rfl⟩

end Registry.Keeps

namespace Document.Fenced

variable {d d' : Document} {top : NodeId}

theorem slot?_eq (h : d.Fenced top d') (htop : (d.element? top).isSome) {id : NodeId}
    (hid : ¬ d.Beneath top id) : d'.slot? id = d.slot? id := by
  by_cases heq : id = top
  · subst heq
    obtain ⟨e, he⟩ := Option.isSome_iff_exists.1 htop
    obtain ⟨e', he', hhead⟩ := h.head e he
    simp [slot?, record?, he, he', hhead.slot]
  · have hout : ¬ (d.Below top id ∨ d.size ≤ id) := fun hb => hid ⟨heq, hb⟩
    obtain ⟨hbelow, hsize⟩ := not_or.1 hout
    rw [slot?, record?, h.outside id (Nat.lt_of_not_le hsize) hbelow]
    rfl

end Document.Fenced

/-- What is known when a component's element has just been opened. -/
structure Enclosure where
  document : Document
  registry : Registry
  node : NodeId
  component : ComponentId
  below : List Frame

structure Enclosure.Proper (c : Enclosure) : Prop where
  node : (c.document.element? c.node).isSome
  component : c.component < c.registry.components.size
  linked : Linked c.document c.registry

namespace KeyedDom

structure Kept (c : Enclosure) (t : KeyedDom) (g : Registry) : Prop where
  sound : t.Sound
  mode : t.mode = .inner
  fenced : c.document.Fenced c.node t.document
  linked : Linked t.document g
  keeps : c.registry.Keeps g
  alone : ∀ m s, t.document.slot? m = some s → s.component = c.component → m = c.node

structure Enclosed (c : Enclosure) (k : Nat) (t : KeyedDom) (g : Registry) : Prop
    extends Kept c t g where
  frames : Stacked c.node c.below k t.frames

def enclosure (c : Enclosure) : Scope KeyedDom where
  fault := fun _ => True
  step := fun i => i.call? = none
  component := fun id => id ≠ c.component ∧
    ∀ m s, ¬ c.document.Beneath c.node m → c.document.slot? m = some s → s.component ≠ id
  node := c.document.Beneath c.node
  fresh := Opened

variable {c : Enclosure} {k k' : Nat} {t t' : KeyedDom} {g g' : Registry} {f : Frame}
  {rest : List Frame}

theorem Kept.moved (h : t.Kept c g) (hp : t.document.Below c.node f.parent) (hm : t.Moves f t')
    (hslots : t.document.SlotsWithin t'.document) : t'.Kept c g where
  sound := hm.sound
  mode := hm.mode.trans h.mode
  fenced := h.fenced.edit (Document.TreeBut.pointsLater h.sound.tree) hp hm.edits
  linked := slotInvariant_linked.within h.linked hslots
  keeps := h.keeps
  alone m s hs hid := h.alone m s (hslots m s hs) hid

theorem confined_kept (c : Enclosure) (g : Registry) : Confined c.node fun t => t.Kept c g :=
  ⟨Kept.sound, Kept.moved⟩

namespace Enclosed

theorem grows (h : t.Enclosed c k g) (he : g.Extends g') : t.Enclosed c k g' where
  sound := h.sound
  mode := h.mode
  frames := h.frames
  fenced := h.fenced
  linked := slotInvariant_linked.grows h.linked he
  keeps := h.keeps.trans (.of_extends he)
  alone := h.alone

theorem beneath_listedOrNew (h : t.Enclosed c k g) {p : NodeId} (hp : t.document.Below c.node p)
    (hproper : c.Proper) {id : NodeId} (hid : ListedOrNew t.document p id) :
    c.document.Beneath c.node id := by
  rcases hid with hchild | rfl
  · exact h.fenced.beneath_child h.sound.tree hp hchild
  · obtain ⟨e, he⟩ := Option.isSome_iff_exists.1 hproper.node
    have hlt := Document.lt_size_of_element? he
    have hsize := h.fenced.size
    exact ⟨Nat.ne_of_gt (Nat.lt_of_lt_of_le hlt hsize), .inr hsize⟩

theorem found (h : t.Enclosed c k g) (hproper : c.Proper) {type : ComponentType} {key : String}
    {id : ComponentId} (hid : RenderM.findAttached? t.document g type key
      (t.document.siblingsFrom t.pointer?) = some id) : (enclosure c).component id := by
  obtain ⟨f, rest, hf, hp, -⟩ := (confined_kept c g).exists_frame h.toKept h.frames
  obtain ⟨m, hm, s, hs, rfl, -⟩ := slot_of_findAttached? hid
  have hpointer : t.pointer? = (t.document.children f.parent)[f.index]? := by
    simp [pointer?, hf]
  rw [hpointer, h.sound.tree.siblingsFrom_eq] at hm
  -- A sibling to come is strictly inside, so its slot is none of those around the element.
  have hbeneath := h.fenced.beneath_child h.sound.tree hp (List.mem_of_mem_drop hm)
  refine ⟨fun heq => hbeneath.1 (h.alone m s hs heq), fun m' s' hm' hs' heq => hm' ?_⟩
  rw [← h.fenced.slot?_eq hproper.node hm'] at hs'
  rwa [h.linked.unique hs hs' heq]

theorem attached (h : t.Enclosed c k g) (hproper : c.Proper) {id : ComponentId} {root : NodeId}
    {comp : Component} (hid : (enclosure c).component id) (hroot : c.document.Beneath c.node root)
    (hcomp : g.component? id = some comp) :
    (t.setDocument (attachedDocument t.document id comp root)).Enclosed c k
      (attachedRegistry t.document g id comp root) where
  sound := h.sound.attached id comp root
  mode := h.mode
  frames := h.frames
  fenced := by
    have hdetach : c.document.Fenced c.node (RenderM.detach t.document id comp.node root) := by
      unfold RenderM.detach
      split
      · exact h.fenced
      · next m _ =>
        split
        · next hm =>
          refine h.fenced.updateRecord ?_ _
          -- Outside, the slots are as before, and none of those holds the component.
          by_contra hout
          obtain ⟨s, hs, heq⟩ := Document.holds_iff.1 hm.2
          rw [h.fenced.slot?_eq hproper.node hout] at hs
          exact hid.2 m s hout hs heq
        · exact h.fenced
    simp only [document_setDocument, attachedDocument]
    split
    · exact hdetach
    · exact hdetach.updateRecord hroot _
  linked := slotInvariant_linked.attached root h.linked trivial hcomp
  keeps := h.keeps.trans (.attached ..)
  alone m s hs heq := by
    rcases Document.slot?_attachedDocument hs with ⟨-, rfl | ⟨hold, -⟩, -⟩ | ⟨-, hold⟩
    · exact absurd heq hid.1
    · exact absurd (hold.symm.trans heq) hid.1
    · exact h.alone m s (Document.slotsWithin_detach _ _ _ m s hold) heq

theorem setComment (h : t.Enclosed c k g) (id : NodeId) (value : String) :
    (t.setComment id value).Enclosed c k g where
  sound := h.sound.setComment id value
  mode := (mode_setComment t id value).trans h.mode
  frames := by
    rw [frames_setComment]
    exact h.frames
  fenced := by
    rw [document_setComment]
    exact h.fenced.setComment id value
  linked := slotInvariant_linked.within h.linked (slotsWithin_setComment t id value)
  keeps := h.keeps
  alone m s hs heq := h.alone m s (slotsWithin_setComment t id value m s hs) heq

theorem closed (h : t.Enclosed c 0 g) (hbelow : c.below = f :: rest) :
    ∃ node t', t.closeElement = .ok (node, t') ∧ t'.Kept c g ∧ t'.frames = c.below := by
  rw [hbelow]
  exact (confined_kept c g).leave h.toKept (hbelow ▸ h.frames)

theorem openElement (h : t.Enclosed c k g) (hproper : c.Proper) (name key : String) :
    Allows (fun _ => True) (fun r => r.2.Enclosed c (k + 1) g ∧
      ∀ node, r.1 = some node → Opened r.2 node ∧ c.document.Beneath c.node node)
      (t.openElement name key) := by
  obtain ⟨id, t', ht', hkept, hframes, hopened, p, hp, hid⟩ :=
    (confined_kept c g).openElement h.toKept h.frames name key
  refine .of_ok ht' ⟨⟨hkept, hframes⟩, ?_⟩
  rintro _ ⟨⟩
  exact ⟨hopened, h.beneath_listedOrNew hp hproper hid⟩

theorem writeText (h : t.Enclosed c k g) (hproper : c.Proper) (value : String) :
    Allows (fun _ => True) (fun r => r.2.Enclosed c k g ∧
      ∀ node, r.1 = some node → c.document.Beneath c.node node) (t.writeText value) := by
  obtain ⟨id, t', ht', hkept, hframes, p, hp, hid⟩ :=
    (confined_kept c g).writeText h.toKept h.frames value
  refine .of_ok ht' ⟨⟨hkept, hframes⟩, ?_⟩
  rintro _ ⟨⟩
  exact h.beneath_listedOrNew hp hproper hid

end Enclosed

theorem stable_enclosed (hproper : c.Proper) :
    Stable (enclosure c) 0 (KeyedDom.Enclosed c) where
  reentered _ := trivial
  grows h he := h.grows he
  created {k t g} h := by
    refine ⟨Nat.ne_of_gt (Nat.lt_of_lt_of_le hproper.component h.keeps.size), fun m s _ hs heq => ?_⟩
    obtain ⟨comp, hcomp, -⟩ := hproper.linked m s hs
    have hlt := Nat.lt_of_lt_of_le (Registry.lt_size_of_component? hcomp) h.keeps.size
    exact absurd heq (Nat.ne_of_lt hlt)
  opened _ _ _ _ name key h := h.openElement hproper name key
  closed _ k t g h := by
    obtain ⟨r, hr, hkept, hframes⟩ := (confined_kept c g).closeElement h.toKept h.frames
    exact .of_ok hr ⟨hkept, hframes⟩
  wrote _ _ _ _ value h := h.writeText hproper value
  assigned _ k t g call hc h := by
    obtain ⟨t', ht', hkept, hframes⟩ := (confined_kept c g).assigns h.toKept h.frames hc
    exact .of_ok ht' ⟨⟨hkept, hframes ▸ h.frames⟩, fun node hnode => Opened.congr hnode hframes⟩
  stayed _ k t g call hc h := by
    obtain ⟨r, hr, hkept, hframes⟩ := (confined_kept c g).stays h.toKept
      (fun id value => (h.setComment id value).toKept) h.frames hc
    exact .of_ok hr ⟨hkept, hframes⟩
  appended _ k t g node value h hnode := by
    obtain ⟨r, hr, hkept, hframes⟩ :=
      (confined_kept c g).appendComment h.toKept h.frames hnode value
    exact .of_ok hr ⟨hkept, hframes⟩
  filled _ k t g node markup h hn := by
    obtain ⟨t', ht', hkept, hframes⟩ :=
      (confined_kept c g).setInnerMarkup h.toKept h.frames hn markup
    exact .of_ok ht' ⟨⟨hkept, hframes ▸ h.frames⟩, Opened.congr hn hframes⟩
  recorded _ k t g node change h hn hc := by
    obtain ⟨rest, hf, hp⟩ := (confined_kept c g).exists_opened h.toKept h.frames hn
    have hmoves : t.Moves ⟨node, 0⟩ (t.setDocument (t.document.updateRecord node change)) :=
      moves_update h.sound ⟨node, 0⟩ (fun _ => rfl) fun e => ⟨rfl, rfl, hc e.record⟩
    exact ⟨h.toKept.moved hp hmoves (.of_keeps (.updateRecord _ node hc)), h.frames⟩
  described _ k t g node h hn := by
    obtain ⟨⟨b, hb⟩, text, htext⟩ := h.sound.described hn
    show Allows _ _ (t.hasContent node) ∧ Allows _ _ (t.describe node)
    rw [hb, htext]
    exact ⟨trivial, trivial⟩
  found _ _ _ _ _ _ _ h hid := h.found hproper hid
  attached _ _ _ _ _ _ _ h hid hroot hcomp := h.attached hproper hid hroot hcomp
  direct _ k t g i call h hc hi := by
    rw [show i.call? = none from hi] at hc
    cases hc
  inspected _ k t g node h _ := by
    show Allows _ _ (RenderM.inspectTarget t node)
    cases RenderM.inspectTarget t node <;> trivial

end KeyedDom

end KeyedRender
