import KeyedRender.Proofs.Target.Confined

/-!
# Around an element

Whatever is rendered inside an element, all elements that are not below it keep their names, their
keys and their child lists, and so do the frames below it. Records are not part of this: a component
that moves into the element may leave another one.
-/
namespace KeyedRender

namespace Document

variable {d d' d'' : Document} {top p : NodeId}

structure Surrounds (d : Document) (top : NodeId) (d' : Document) : Prop extends Gains d d' where
  around : ∀ id e, (d.Below top id → id = top) → d.element? id = some e →
    ∃ e', d'.element? id = some e' ∧ e'.name = e.name ∧ e'.key = e.key ∧
      (id ≠ top → e'.children = e.children)

namespace Surrounds

theorem refl (d : Document) (top : NodeId) : d.Surrounds top d :=
  ⟨.refl d, fun _ e _ he => ⟨e, he, rfl, rfl, fun _ => rfl⟩⟩

theorem edit (h : d.Surrounds top d') (hd : d'.PointsLater) (hp : d'.Below top p)
    (h' : d'.EditsBelow p d'') : d.Surrounds top d'' := by
  refine ⟨h.toGains.trans h'.toGains, fun id e hout he => ?_⟩
  obtain ⟨e', he', hname, hkey, hchildren⟩ := h.around id e hout he
  by_cases hid : id = top
  · subst hid
    obtain ⟨e'', he'', hhead⟩ := h'.keepsHead hd hp e' he'
    exact ⟨e'', he'', hhead.name.trans hname, hhead.key.trans hkey, fun hne => absurd rfl hne⟩
  · -- Nothing that was there has come below the node.
    have hbelow : ¬ d'.Below p id := fun hb => by
      rcases h.below_or_new (hp.trans hb) with hold | hnew
      · exact hid (hout hold)
      · exact absurd (lt_size_of_element? he) (Nat.not_lt.2 hnew)
    have hsame := h'.element?_outside (lt_size_of_element? he') hbelow
    exact ⟨e', hsame.trans he', hname, hkey, hchildren⟩

theorem relabel (h : d.Surrounds top d') (hsize : d''.size = d'.size)
    (hsame : ∀ id e, d'.element? id = some e → ∃ e', d''.element? id = some e' ∧
      e'.name = e.name ∧ e'.key = e.key ∧ e'.children = e.children)
    (hchildren : ∀ p, d''.children p = d'.children p) : d.Surrounds top d'' := by
  refine ⟨⟨hsize ▸ h.size, fun p c hc => h.grown p c (hchildren p ▸ hc)⟩, fun id e hout he => ?_⟩
  obtain ⟨e', he', hname, hkey, hold⟩ := h.around id e hout he
  obtain ⟨e'', he'', hname', hkey', hlist⟩ := hsame id e' he'
  exact ⟨e'', he'', hname'.trans hname, hkey'.trans hkey, fun hid => hlist.trans (hold hid)⟩

theorem updateRecord (h : d.Surrounds top d') (id : NodeId) (change : NodeRecord → NodeRecord) :
    d.Surrounds top (d'.updateRecord id change) := by
  refine h.relabel (size_updateElement ..) (fun other e he => ?_) fun p =>
    children_updateElement d' id p fun _ => rfl
  rw [Document.updateRecord, element?_updateElement]
  split
  · next hother =>
    subst hother
    rw [he]
    exact ⟨_, rfl, rfl, rfl, rfl⟩
  · exact ⟨e, he, rfl, rfl, rfl⟩

theorem setComment (h : d.Surrounds top d') (id : NodeId) (value : String) :
    d.Surrounds top (d'.setComment id value) := by
  refine h.relabel (size_setComment ..) (fun other e he => ?_) fun p => ?_
  · exact ⟨e, by rw [element?_setComment, he], rfl, rfl, rfl⟩
  · rw [children, element?_setComment, children]

theorem attached (h : d.Surrounds top d') (id : ComponentId) (c : Component) (root : NodeId) :
    d.Surrounds top (attachedDocument d' id c root) := by
  have hdetach : d.Surrounds top (RenderM.detach d' id c.node root) := by
    unfold RenderM.detach
    split
    · exact h
    · split
      · exact h.updateRecord _ _
      · exact h
  unfold attachedDocument
  dsimp only
  split
  · exact hdetach
  · exact hdetach.updateRecord root _

end Surrounds

end Document

namespace KeyedDom

variable {d : Document} {n : NodeId} {below : List Frame} {k : Nat} {t t' : KeyedDom}

structure Inside (d : Document) (n : NodeId) (t : KeyedDom) : Prop where
  sound : t.Sound
  mode : t.mode = .inner
  surrounds : d.Surrounds n t.document

def insideScope : Scope KeyedDom :=
  ⟨fun _ => True, fun i => i.call? = none, fun _ => True, fun _ => True, Opened⟩

theorem confined_inside (d : Document) (n : NodeId) : Confined n (Inside d n) where
  sound h := h.sound
  moved h hp hm _ := ⟨hm.sound, hm.mode.trans h.mode,
    h.surrounds.edit (Document.TreeBut.pointsLater h.sound.tree) hp hm.edits⟩

theorem Inside.setComment (h : t.Inside d n) (id : NodeId) (value : String) :
    (t.setComment id value).Inside d n where
  sound := h.sound.setComment id value
  mode := (mode_setComment t id value).trans h.mode
  surrounds := by
    rw [document_setComment]
    exact h.surrounds.setComment id value

theorem stable_inside (d : Document) (n : NodeId) (below : List Frame) :
    Stable insideScope 0 fun k t _ => t.Inside d n ∧ Stacked n below k t.frames where
  reentered _ := trivial
  grows h _ := h
  created _ := trivial
  opened _ k t g name key h := by
    obtain ⟨id, t', ht', hinside, hframes, hopened, -⟩ :=
      (confined_inside d n).openElement h.1 h.2 name key
    refine .of_ok ht' ⟨⟨hinside, hframes⟩, ?_⟩
    rintro _ ⟨⟩
    exact ⟨hopened, trivial⟩
  closed _ k t g h := by
    obtain ⟨r, hr, hinside⟩ := (confined_inside d n).closeElement h.1 h.2
    exact .of_ok hr hinside
  wrote _ k t g value h := by
    obtain ⟨id, t', ht', hinside, hframes, -⟩ := (confined_inside d n).writeText h.1 h.2 value
    exact .of_ok ht' ⟨⟨hinside, hframes⟩, fun _ _ => trivial⟩
  assigned _ k t g call hc h := by
    obtain ⟨t', ht', hinside, hframes⟩ := (confined_inside d n).assigns h.1 h.2 hc
    exact .of_ok ht' ⟨⟨hinside, hframes ▸ h.2⟩, fun node hnode => Opened.congr hnode hframes⟩
  stayed _ k t g call hc h := by
    obtain ⟨r, hr, hinside⟩ := (confined_inside d n).stays h.1 h.1.setComment h.2 hc
    exact .of_ok hr hinside
  appended _ k t g node value h hnode := by
    obtain ⟨r, hr, hinside⟩ := (confined_inside d n).appendComment h.1 h.2 hnode value
    exact .of_ok hr hinside
  filled _ k t g node markup h hn := by
    obtain ⟨t', ht', hinside, hframes⟩ := (confined_inside d n).setInnerMarkup h.1 h.2 hn markup
    exact .of_ok ht' ⟨⟨hinside, hframes ▸ h.2⟩, Opened.congr hn hframes⟩
  recorded _ k t g node change h _ _ :=
    ⟨⟨h.1.sound.updateRecord node change, h.1.mode, h.1.surrounds.updateRecord node change⟩, h.2⟩
  described _ k t g node h hn := by
    obtain ⟨⟨b, hb⟩, text, htext⟩ := h.1.sound.described hn
    show Allows _ _ (t.hasContent node) ∧ Allows _ _ (t.describe node)
    rw [hb, htext]
    exact ⟨trivial, trivial⟩
  found _ _ _ _ _ _ _ _ _ := trivial
  attached _ k t g id root c h _ _ _ :=
    ⟨⟨h.1.sound.attached id c root, h.1.mode, h.1.surrounds.attached id c root⟩, h.2⟩
  direct _ k t g i call h hc hi := by
    rw [show i.call? = none from hi] at hc
    cases hc
  inspected _ k t g node h _ := by
    show Allows _ _ (RenderM.inspectTarget t node)
    cases RenderM.inspectTarget t node <;> trivial

end KeyedDom

end KeyedRender
