import KeyedRender.Proofs.Script.Visits
import KeyedRender.Proofs.Target.Enclosed
import KeyedRender.Proofs.Target.Placing

/-!
# A row of components

The children of a root are the seats of components, told apart by the keys of their elements.
While a pass goes on, the seats that were visited come first and those left over follow. Opening
an element under the key of a seat that is left puts that seat behind the visited ones, and any
other key makes a new one. What happens inside a seat leaves the others as they are.
-/
namespace KeyedRender

namespace Family

variable (F : Family)

def elementKey (i : Key.Identity) : String := Key.encode (.text (F.key i)) ++ F.stack

def slot (v : Visit) : ComponentSlot := ⟨F.type.tag, Key.encode v.first ++ F.stack, v.component⟩

structure Labels (i : Key.Identity) (e : Element) : Prop where
  name : e.name = F.name i
  key : e.key = F.elementKey i

end Family

/-- The node of a visit is an element with its labels, and holds its component. -/
structure Seated (F : Family) (d : Document) (g : Registry) (v : Visit) : Prop where
  element : ∃ e, d.element? v.node = some e ∧ F.Labels v.identity e ∧
    e.record.slot = some (F.slot v)
  type : (g.component? v.component).map Component.type = some F.type

def others (i : Key.Identity) (l : List Visit) : List Visit := l.filter fun v => v.identity ≠ i

theorem mem_others {i : Key.Identity} {l : List Visit} {v : Visit} :
    v ∈ others i l ↔ v ∈ l ∧ v.identity ≠ i := by
  simp [others]

theorem others_eq_self {i : Key.Identity} {l : List Visit} (h : ∀ v ∈ l, v.identity ≠ i) :
    others i l = l := List.filter_eq_self.2 fun v hv => by simpa using h v hv

theorem others_append_cons {i : Key.Identity} {before after : List Visit} {w : Visit}
    (hw : w.identity = i) (hl : ((before ++ w :: after).map Visit.identity).Nodup) :
    others i (before ++ w :: after) = before ++ after := by
  subst hw
  exact (filter_ne_append_cons hl).2

namespace Seated

variable {F : Family} {d d' : Document} {g g' : Registry} {v : Visit} {t : KeyedDom}
  {i : Key.Identity}

theorem slot?_eq (h : Seated F d g v) : d.slot? v.node = some (F.slot v) := by
  obtain ⟨e, he, -, hslot⟩ := h.element
  exact Document.slot?_eq_some_iff.2 ⟨e, he, hslot⟩

theorem congr (h : Seated F d g v) (he : d'.element? v.node = d.element? v.node) (hg : g.Keeps g') :
    Seated F d' g' v := by
  refine ⟨he ▸ h.element, ?_⟩
  obtain ⟨c, hc, htype⟩ := Option.map_eq_some_iff.1 h.type
  obtain ⟨c', hc', htype', -⟩ := hg.kept hc
  rw [hc', Option.map_some, htype', htype]

theorem node_eq (h : Seated F d g v) (hl : Linked d g) :
    (g.component? v.component).bind Component.node = some v.node := by
  obtain ⟨c, hc, hnode, -⟩ := hl _ _ h.slot?_eq
  have hc : g.component? v.component = some c := hc
  rw [hc]
  exact hnode

theorem accepts_iff (h : Seated F t.document g v) (hv : v.identity ∈ F.used) (hi : i ∈ F.used) :
    t.accepts (F.name i) (F.elementKey i) v.node = true ↔ v.identity = i := by
  obtain ⟨e, he, hlabels, -⟩ := h.element
  simp only [KeyedDom.accepts, he, hlabels.name, hlabels.key, Family.elementKey,
    Key.MatchRule.accepts_iff]
  refine ⟨fun hkey => (F.injective hi hv hkey.2).symm, ?_⟩
  rintro rfl
  exact ⟨rfl, rfl⟩

theorem findAttached?_eq {l : List Visit} (hl : ∀ v ∈ l, Seated F d g v) (first : Key.Fragment) :
    RenderM.findAttached? d g F.type (Key.encode first ++ F.stack) (l.map Visit.node) =
      (l.find? fun v => v.identity = first.identity).map Visit.component := by
  induction l with
  | nil => rfl
  | cons v rest ih =>
    obtain ⟨hv, hrest⟩ := List.forall_mem_cons.1 hl
    have hslot : (d.record? v.node).bind NodeRecord.slot = some (F.slot v) := hv.slot?_eq
    have hfound : ((F.slot v).tag = F.type.tag ∧
        Key.isMatchingText (Key.encode first ++ F.stack) (F.slot v).key ∧
        (g.component? (F.slot v).component).map Component.type = some F.type) ↔
        v.identity = first.identity := by
      refine ⟨fun h => (Key.identity_of_isMatchingText h.2.1).symm, fun h => ⟨rfl, ?_, hv.type⟩⟩
      show Key.isMatchingText _ (Key.encode v.first ++ F.stack) = true
      rw [Key.encode_eq_of_identity h, Key.isMatchingText_self]
    simp only [List.map_cons, RenderM.findAttached?, hslot, List.find?_cons]
    by_cases h : v.identity = first.identity
    · rw [if_pos (hfound.2 h), decide_eq_true h]
      rfl
    · rw [if_neg fun hf => h (hfound.1 hf), decide_eq_false h]
      exact ih hrest

end Seated

theorem Document.detach_of_alone {d : Document} {id : ComponentId} {root : NodeId}
    (h : ∀ m s, d.slot? m = some s → s.component = id → m = root) {previous : Option NodeId} :
    RenderM.detach d id previous root = d := by
  cases previous with
  | none => rfl
  | some m =>
    have hnot : ¬ (m ≠ root ∧ RenderM.Holds d m id) := by
      rintro ⟨hne, hholds⟩
      obtain ⟨s, hs, heq⟩ := Document.holds_iff.1 hholds
      exact hne (h m s hs heq)
    rw [RenderM.detach, if_neg hnot]

theorem Document.attachedDocument_of_alone {d : Document} {id : ComponentId} {c : Component}
    {root : NodeId} (h : ∀ m s, d.slot? m = some s → s.component = id → m = root) :
    attachedDocument d id c root = if RenderM.Holds d root id then d else
      d.updateRecord root fun r => { r with slot := some ⟨c.type.tag, c.key, id⟩ } := by
  simp only [attachedDocument, Document.detach_of_alone h]

namespace KeyedDom

/-- Between two calls, the seats that were visited come first and then those that are left. -/
structure Shelf (F : Family) (root : NodeId) (done left : List Visit) (t : KeyedDom)
    (g : Registry) : Prop where
  sound : t.Sound
  mode : t.mode = .inner
  frames : t.frames = [⟨root, done.length⟩]
  linked : Linked t.document g
  children : t.document.children root = (done ++ left).map Visit.node
  seated : ∀ v ∈ done ++ left, Seated F t.document g v
  distinct : ((done ++ left).map Visit.identity).Nodup
  used : ∀ v ∈ done ++ left, v.identity ∈ F.used

structure Opens (F : Family) (root : NodeId) (i : Key.Identity) (done left : List Visit)
    (t : KeyedDom) (n : NodeId) (t' : KeyedDom) : Prop where
  sound : t'.Sound
  mode : t'.mode = .inner
  frames : t'.frames = [⟨n, 0⟩, ⟨root, done.length + 1⟩]
  children : t'.document.children root =
    done.map Visit.node ++ n :: (others i left).map Visit.node
  seats : ∀ v ∈ done ++ others i left, t'.document.element? v.node = t.document.element? v.node
  element : ∃ e, t'.document.element? n = some e ∧ F.Labels i e ∧
    e.record.slot = (left.find? fun v => v.identity = i).map F.slot

namespace Shelf

variable {F : Family} {root : NodeId} {done left : List Visit} {t : KeyedDom} {g g' : Registry}
  {i : Key.Identity}

theorem grows (h : t.Shelf F root done left g) (hg : g.Extends g') : t.Shelf F root done left g' :=
  { h with
    linked := slotInvariant_linked.grows h.linked hg
    seated := fun v hv => (h.seated v hv).congr rfl (.of_extends hg) }

theorem node_ne_root (h : t.Shelf F root done left g) {v : Visit} (hv : v ∈ done ++ left) :
    v.node ≠ root := by
  have hmem : v.node ∈ t.document.children root := by
    rw [h.children]
    exact List.mem_map_of_mem hv
  exact Nat.ne_of_gt (h.sound.tree.lt hmem)

theorem accepts_iff (h : t.Shelf F root done left g) (hi : i ∈ F.used) {v : Visit}
    (hv : v ∈ done ++ left) :
    t.accepts (F.name i) (F.elementKey i) v.node = true ↔ v.identity = i :=
  (h.seated v hv).accepts_iff (h.used v hv) hi

theorem lt_size (h : t.Shelf F root done left g) {v : Visit} (hv : v ∈ done ++ left) :
    v.node < t.document.size := by
  obtain ⟨e, he, -⟩ := (h.seated v hv).element
  exact Document.lt_size_of_element? he

theorem rejects (h : t.Shelf F root done left g) (hi : i ∈ F.used) {l : List Visit}
    (hl : l ⊆ left) (hne : ∀ v ∈ l, v.identity ≠ i) :
    ∀ id ∈ l.map Visit.node, t.accepts (F.name i) (F.elementKey i) id = false := by
  intro id hid
  obtain ⟨v, hv, rfl⟩ := List.mem_map.1 hid
  have hmem : v ∈ done ++ left := List.mem_append_right _ (hl hv)
  exact Bool.eq_false_iff.2 fun ha => hne v hv ((h.accepts_iff hi hmem).1 ha)

theorem opens_left (h : t.Shelf F root done left g) (hi : i ∈ F.used) {before after : List Visit}
    {w : Visit} (hleft : left = before ++ w :: after) (hw : w.identity = i)
    (hbefore : ∀ v ∈ before, v.identity ≠ i) :
    ∃ t', t.openElement (F.name i) (F.elementKey i) = .ok (some w.node, t') ∧
      t.Opens F root i done left w.node t' := by
  have hchildren : t.document.children root =
      done.map Visit.node ++ (before.map Visit.node ++ w.node :: after.map Visit.node) := by
    rw [h.children, hleft]
    simp
  have hmem : w ∈ done ++ left := by simp [hleft]
  have hothers : others i left = before ++ after := by
    have hdistinct := h.distinct
    rw [List.map_append] at hdistinct
    have hnodup := (List.nodup_append.1 hdistinct).2.1
    subst hleft
    exact others_append_cons hw hnodup
  have hfind : left.find? (fun v => v.identity = i) = some w := by
    rw [hleft, List.find?_append, List.find?_eq_none.2 fun v hv => by simpa using hbefore v hv]
    simp [hw]
  -- The scan passes over the seats of other identities and stops at the one that is left.
  have haccepts := (h.accepts_iff hi hmem).2 hw
  have hrejects := h.rejects hi (by simp [hleft]) hbefore
  have hframes : t.frames = [⟨root, (done.map Visit.node).length⟩] := by simpa using h.frames
  obtain ⟨t', hopen, hplaces, -⟩ := h.sound.places_found hframes hchildren haccepts hrejects
  refine ⟨t', hopen, hplaces.sound, hplaces.mode.trans h.mode, by simpa using hplaces.frames, ?listed,
    ?seats, ?element⟩
  case listed => rw [hplaces.children, hothers, List.map_append]
  case seats =>
    intro v hv
    rw [List.mem_append, mem_others] at hv
    have hv : v ∈ done ++ left := List.mem_append.2 (hv.imp_right And.left)
    exact hplaces.elements _ (h.lt_size hv) (h.node_ne_root hv)
  case element =>
    obtain ⟨ew, hew, hlabels, hslot⟩ := (h.seated w hmem).element
    have hsame := hplaces.elements _ (h.lt_size hmem) (h.node_ne_root hmem)
    exact ⟨ew, hsame.trans hew, hw ▸ hlabels, by rw [hslot, hfind]; rfl⟩

theorem opens_new (h : t.Shelf F root done left g) (hi : i ∈ F.used)
    (hnone : ∀ v ∈ left, v.identity ≠ i) :
    ∃ t', t.openElement (F.name i) (F.elementKey i) = .ok (some t.document.size, t') ∧
      t.Opens F root i done left t.document.size t' := by
  have hchildren : t.document.children root = done.map Visit.node ++ left.map Visit.node := by
    rw [h.children, List.map_append]
  have hfind : left.find? (fun v => v.identity = i) = none :=
    List.find?_eq_none.2 fun v hv => by simpa using hnone v hv
  have hframes : t.frames = [⟨root, (done.map Visit.node).length⟩] := by simpa using h.frames
  obtain ⟨t', hopen, hplaces, -, hnew⟩ :=
    h.sound.places_new hframes hchildren (h.rejects hi (List.Subset.refl left) hnone)
  refine ⟨t', hopen, hplaces.sound, hplaces.mode.trans h.mode, by simpa using hplaces.frames, ?listed,
    ?seats, ?element⟩
  case listed => rw [hplaces.children, others_eq_self hnone]
  case seats =>
    intro v hv
    rw [others_eq_self hnone] at hv
    exact hplaces.elements _ (h.lt_size hv) (h.node_ne_root hv)
  case element => exact ⟨_, hnew, ⟨rfl, rfl⟩, by rw [hfind]; rfl⟩

theorem openElement (h : t.Shelf F root done left g) (hi : i ∈ F.used) :
    ∃ n t', t.openElement (F.name i) (F.elementKey i) = .ok (some n, t') ∧
      t.Opens F root i done left n t' := by
  cases hfind : left.find? fun v => v.identity = i with
  | none =>
    have hnone : ∀ v ∈ left, v.identity ≠ i := fun v hv => by
      simpa using List.find?_eq_none.1 hfind v hv
    exact ⟨_, h.opens_new hi hnone⟩
  | some w =>
    obtain ⟨hw, before, after, hleft, hbefore⟩ := List.find?_eq_some_iff_append.1 hfind
    have hbefore : ∀ v ∈ before, v.identity ≠ i := fun v hv => by simpa using hbefore v hv
    exact ⟨_, h.opens_left hi hleft (by simpa using hw) hbefore⟩

theorem find?_eq (h : t.Shelf F root done left g) {w : Visit} (hw : w ∈ left) :
    left.find? (fun v => v.identity = w.identity) = some w := by
  have hdistinct : (left.map Visit.identity).Nodup :=
    h.distinct.sublist ((List.sublist_append_right done left).map _)
  cases hfind : left.find? fun v => v.identity = w.identity with
  | none => exact absurd (decide_eq_true rfl) (List.find?_eq_none.1 hfind w hw)
  | some w' =>
    have hidentity : w'.identity = w.identity := by simpa using List.find?_some hfind
    rw [List.inj_on_of_nodup_map hdistinct (List.mem_of_find?_eq_some hfind) hw hidentity]

theorem siblings (h : t.Shelf F root done left g) :
    t.document.siblingsFrom t.pointer? = left.map Visit.node := by
  have hpointer : t.pointer? = (t.document.children root)[done.length]? := by
    simp [pointer?, h.frames]
  rw [hpointer, h.sound.tree.siblingsFrom_eq, h.children]
  simp

end Shelf

/-- The component of a call: that of the seat which is left for its identity, and else one that no
slot holds. -/
structure Calls (F : Family) (left : List Visit) (first : Key.Fragment) (id : ComponentId)
    (d : Document) (g : Registry) : Prop where
  component : ∃ c, g.component? id = some c ∧ c.type = F.type ∧ c.key = Key.encode first ++ F.stack
  found : ∀ w, left.find? (fun w => w.identity = first.identity) = some w → w.component = id
  fresh : left.find? (fun w => w.identity = first.identity) = none →
    ∀ m s, d.slot? m = some s → s.component ≠ id

theorem Calls.grows {F : Family} {left : List Visit} {first : Key.Fragment} {id : ComponentId}
    {d : Document} {g g' : Registry} (h : Calls F left first id d g) (hg : g.Extends g') :
    Calls F left first id d g' := by
  obtain ⟨c, hc, htype, hkey⟩ := h.component
  obtain ⟨c', hc', htype', hkey', -⟩ := hg.kept hc
  exact ⟨⟨c', hc', htype'.trans htype, hkey'.trans hkey⟩, h.found, h.fresh⟩

namespace Shelf

variable {F : Family} {root : NodeId} {done left : List Visit} {t : KeyedDom} {g : Registry}
  {first : Key.Fragment}

theorem calls_left (h : t.Shelf F root done left g) {w : Visit}
    (hw : left.find? (fun w => w.identity = first.identity) = some w) :
    Calls F left first w.component t.document g := by
  have hidentity : w.identity = first.identity := by simpa using List.find?_some hw
  have hseated := h.seated w (List.mem_append_right _ (List.mem_of_find?_eq_some hw))
  obtain ⟨c, hc, -, -, hkey⟩ := h.linked _ _ hseated.slot?_eq
  have hc : g.component? w.component = some c := hc
  have htype := hseated.type
  rw [hc, Option.map_some, Option.some.injEq] at htype
  refine ⟨⟨c, hc, htype, ?_⟩, fun w' hw' => ?_, fun hnone => ?_⟩
  · rw [← hkey, ← Key.encode_eq_of_identity hidentity]
    rfl
  · rw [Option.some.inj (hw'.symm.trans hw)]
  · rw [hw] at hnone
    cases hnone

theorem calls_new (h : t.Shelf F root done left g)
    (hnone : left.find? (fun w => w.identity = first.identity) = none) (label : String) :
    Calls F left first g.components.size t.document
      (g.create (.new F.type (Key.encode first ++ F.stack) label)).2 := by
  refine ⟨⟨_, by rw [Registry.component?_create, if_pos rfl], rfl, rfl⟩, fun w hw => ?_,
    fun _ m s hs heq => ?_⟩
  · rw [hw] at hnone
    cases hnone
  · obtain ⟨c, hc, -⟩ := h.linked m s hs
    exact absurd heq (Nat.ne_of_lt (Registry.lt_size_of_component? hc))

end Shelf

structure Placed (F : Family) (root : NodeId) (done left : List Visit) (v : Visit) (d : Document)
    (g : Registry) : Prop where
  children : d.children root = done.map Visit.node ++ v.node :: left.map Visit.node
  seated : ∀ w ∈ done ++ left, Seated F d g w
  element : ∃ e, d.element? v.node = some e ∧ F.Labels v.identity e ∧
    ∀ s, e.record.slot = some s → s = F.slot v
  component : ∃ c, g.component? v.component = some c ∧ c.type = F.type ∧
    c.key = Key.encode v.first ++ F.stack

section Seat

variable {F : Family} {root : NodeId} {done left : List Visit} {t t' : KeyedDom} {d : Document}
  {g : Registry} {v : Visit}

namespace Opens

variable (ho : t.Opens F root v.identity done left v.node t') (h : t.Shelf F root done left g)
  (hc : Calls F left v.first v.component t.document g)
include ho h hc

theorem placed : Placed F root done (others v.identity left) v t'.document g := by
  refine ⟨ho.children, fun w hw => ?_, ?_, hc.component⟩
  · have hmem : w ∈ done ++ left := by
      rw [List.mem_append, mem_others] at hw
      exact List.mem_append.2 (hw.imp_right And.left)
    exact (h.seated w hmem).congr (ho.seats w hw) (.refl g)
  · obtain ⟨e, he, hlabels, hslot⟩ := ho.element
    refine ⟨e, he, hlabels, fun s hs => ?_⟩
    obtain ⟨w, hw, rfl⟩ := Option.map_eq_some_iff.1 (hslot.symm.trans hs)
    have hidentity : w.identity = v.identity := by simpa using List.find?_some hw
    simp only [Family.slot, hc.found w hw, Key.encode_eq_of_identity hidentity]

theorem alone (hslots : t.document.SlotsWithin t'.document) (m : NodeId) (s : ComponentSlot)
    (hs : t'.document.slot? m = some s) (hid : s.component = v.component) : m = v.node := by
  have hold := hslots m s hs
  cases hfind : left.find? fun w => w.identity = v.identity with
  | none => exact absurd hid (hc.fresh hfind m s hold)
  | some w =>
    obtain ⟨e, he, -, hslot⟩ := ho.element
    rw [hfind, Option.map_some] at hslot
    have hseat := hslots v.node _ (Document.slot?_eq_some_iff.2 ⟨e, he, hslot⟩)
    exact h.linked.unique hseat hold (hid.trans (hc.found w hfind).symm)

theorem enclosed (hslots : t.document.SlotsWithin t'.document) :
    Enclosure.Proper ⟨t'.document, g, v.node, v.component, [⟨root, done.length + 1⟩]⟩ ∧
    t'.Enclosed ⟨t'.document, g, v.node, v.component, [⟨root, done.length + 1⟩]⟩ 0 g := by
  have hlinked : Linked t'.document g := slotInvariant_linked.within h.linked hslots
  obtain ⟨e, he, -⟩ := ho.element
  obtain ⟨c, hcomp, -⟩ := hc.component
  refine ⟨⟨by simp [he], Registry.lt_size_of_component? hcomp, hlinked⟩, ?_⟩
  exact ⟨⟨ho.sound, ho.mode, .refl _ _, hlinked, .refl g, ho.alone h hc hslots⟩,
    [], 0, ho.frames, rfl⟩

end Opens

namespace Placed

theorem mem_children (h : Placed F root done left v d g) {w : Visit} (hw : w ∈ done ++ left) :
    w.node ∈ d.children root := by
  rw [h.children]
  rcases List.mem_append.1 hw with hw | hw
  · exact List.mem_append_left _ (List.mem_map_of_mem hw)
  · exact List.mem_append_right _ (List.mem_cons_of_mem _ (List.mem_map_of_mem hw))

theorem node_mem_children (h : Placed F root done left v d g) : v.node ∈ d.children root := by
  simp [h.children]

theorem node_ne (h : Placed F root done left v d g) (hd : d.IsTree) {w : Visit}
    (hw : w ∈ done ++ left) : w.node ≠ v.node := by
  have hnodup := Document.TreeBut.nodup hd root
  rw [h.children, List.nodup_middle, ← List.map_append] at hnodup
  exact fun heq => (List.nodup_cons.1 hnodup).1 (heq ▸ List.mem_map_of_mem hw)

theorem kept {c : Enclosure} (h : Placed F root done left v c.document c.registry)
    (hnode : c.node = v.node) (hd : c.document.IsTree) (hk : t.Kept c g) :
    Placed F root done left v t.document g := by
  have hmem := h.node_mem_children
  have outside : ∀ id e, c.document.element? id = some e → ¬ c.document.Below v.node id →
      t.document.element? id = c.document.element? id := fun id e he hout =>
    hk.fenced.outside id (Document.lt_size_of_element? he) (hnode ▸ hout)
  obtain ⟨e, he, hlabels, hslot⟩ := h.element
  obtain ⟨comp, hcomp, htype, hkey⟩ := h.component
  refine ⟨?children, ?seated, ?element, ?component⟩
  case children =>
    obtain ⟨er, her, -⟩ := Document.element?_of_mem_children hmem
    have hroot := outside root er her (not_below_of_lt hd (hd.lt hmem))
    rw [← h.children, Document.children, Document.children, hroot]
  case seated =>
    intro w hw
    obtain ⟨ew, hew, -⟩ := (h.seated w hw).element
    -- Two seats are siblings, and nothing is below both.
    have hout : ¬ c.document.Below v.node w.node :=
      hd.not_below_siblings (h.mem_children hw) hmem (h.node_ne hd hw) .self
    exact (h.seated w hw).congr (outside _ ew hew hout) hk.keeps
  case element =>
    obtain ⟨e', he', hhead⟩ := hk.fenced.head e (hnode ▸ he)
    exact ⟨e', hnode ▸ he', ⟨hhead.name.trans hlabels.name, hhead.key.trans hlabels.key⟩,
      fun s hs => hslot s (hhead.slot ▸ hs)⟩
  case component =>
    obtain ⟨comp', hcomp', htype', hkey'⟩ := hk.keeps.kept hcomp
    exact ⟨comp', hcomp', htype'.trans htype, hkey'.trans hkey⟩

theorem seat_attached (h : Placed F root done left v d g)
    (halone : ∀ m s, d.slot? m = some s → s.component = v.component → m = v.node)
    {comp : Component} (hcomp : g.component? v.component = some comp) :
    ∃ e, (attachedDocument d v.component comp v.node).element? v.node = some e ∧
      F.Labels v.identity e ∧ e.record.slot = some (F.slot v) := by
  obtain ⟨e, he, hlabels, hslot⟩ := h.element
  obtain ⟨comp', hcomp', htype, hkey⟩ := h.component
  obtain rfl := Option.some.inj (hcomp'.symm.trans hcomp)
  rw [Document.attachedDocument_of_alone halone]
  split
  · next hholds =>
    obtain ⟨s, hs, -⟩ := Document.holds_iff.1 hholds
    obtain ⟨e', he', hs'⟩ := Document.slot?_eq_some_iff.1 hs
    obtain rfl := Option.some.inj (he'.symm.trans he)
    exact ⟨e', he, hlabels, by rw [hs', hslot s hs']⟩
  · rw [Document.updateRecord, Document.element?_updateElement, if_pos rfl, he]
    refine ⟨_, rfl, ⟨hlabels.name, hlabels.key⟩, ?_⟩
    simp only [Family.slot, htype, hkey]

theorem attached (h : Placed F root done left v d g) (hd : d.IsTree)
    (halone : ∀ m s, d.slot? m = some s → s.component = v.component → m = v.node)
    {comp : Component} (hcomp : g.component? v.component = some comp) :
    (attachedDocument d v.component comp v.node).children root = d.children root ∧
    ∀ w ∈ done ++ v :: left, Seated F (attachedDocument d v.component comp v.node)
      (attachedRegistry d g v.component comp v.node) w := by
  have hkeeps := Registry.Keeps.attached d g v.component comp v.node
  have hsame : ∀ id, id ≠ v.node →
      (attachedDocument d v.component comp v.node).element? id = d.element? id := by
    intro id hid
    rw [Document.attachedDocument_of_alone halone]
    split
    · rfl
    · rw [Document.updateRecord, Document.element?_updateElement, if_neg hid]
  have hroot : root ≠ v.node := Nat.ne_of_lt (hd.lt h.node_mem_children)
  refine ⟨by rw [Document.children, hsame root hroot, Document.children], fun w hw => ?_⟩
  by_cases hwv : w = v
  · subst hwv
    obtain ⟨c, hc, hctype, -⟩ := h.component
    obtain ⟨c', hc', hctype', -⟩ := hkeeps.kept hc
    refine ⟨h.seat_attached halone hcomp, ?_⟩
    rw [hc', Option.map_some, hctype', hctype]
  · have hw : w ∈ done ++ left := by
      rw [List.mem_append, List.mem_cons] at hw
      exact List.mem_append.2 (hw.imp_right fun hw => hw.resolve_left hwv)
    exact (h.seated w hw).congr (hsame _ (h.node_ne hd hw)) hkeeps

end Placed

theorem Shelf.visited (h : t.Shelf F root done left g)
    (hp : Placed F root done (others v.identity left) v t'.document g)
    (ho : t.Opens F root v.identity done left v.node t') (hv : v.identity ∈ F.used)
    (hdone : ∀ w ∈ done, w.identity ≠ v.identity) {c : Enclosure}
    (hc : c.document = t'.document ∧ c.registry = g ∧ c.node = v.node ∧ c.component = v.component)
    {u : KeyedDom} {g' : Registry} (hk : u.Kept c g')
    (hframes : u.frames = [⟨root, done.length + 1⟩]) {comp : Component}
    (hcomp : g'.component? v.component = some comp) :
    (u.setDocument (attachedDocument u.document v.component comp v.node)).Shelf F root
      (done ++ [v]) (others v.identity left)
      (attachedRegistry u.document g' v.component comp v.node) := by
  obtain ⟨hdocument, rfl, hnode, hid⟩ := hc
  rw [← hdocument] at hp
  have hplaced := hp.kept hnode (hdocument ▸ ho.sound.tree) hk
  obtain ⟨hchildren, hseated⟩ := hplaced.attached hk.sound.tree
    (fun m s hs heq => (hk.alone m s hs (heq.trans hid.symm)).trans hnode) hcomp
  have hsub : (done ++ others v.identity left).Sublist (done ++ left) :=
    .append_left List.filter_sublist done
  have hother : ∀ w ∈ done ++ others v.identity left, w.identity ≠ v.identity := fun w hw =>
    (List.mem_append.1 hw).elim (hdone w) fun hw => (mem_others.1 hw).2
  have happend : done ++ [v] ++ others v.identity left = done ++ v :: others v.identity left := by
    simp
  refine ⟨hk.sound.attached .., hk.mode, by simpa using hframes,
    slotInvariant_linked.attached _ hk.linked trivial hcomp, ?children, ?seated, ?distinct, ?used⟩
  case children =>
    rw [document_setDocument, hchildren, hplaced.children]
    simp
  case seated =>
    rw [happend]
    exact hseated
  case distinct =>
    rw [happend, List.map_append, List.map_cons, List.nodup_middle, ← List.map_append]
    refine List.nodup_cons.2 ⟨fun hmem => ?_, h.distinct.sublist (hsub.map _)⟩
    obtain ⟨w, hw, hidentity⟩ := List.mem_map.1 hmem
    exact hother w hw hidentity
  case used =>
    intro w hw
    rw [happend, List.mem_append, List.mem_cons] at hw
    rcases hw with hw | rfl | hw
    · exact h.used w (List.mem_append_left _ hw)
    · exact hv
    · exact h.used w (hsub.subset (List.mem_append_right _ hw))

end Seat

structure Row (F : Family) (root : NodeId) (visits : List Visit) (t : KeyedDom) (g : Registry) :
    Prop where
  tree : t.document.IsTree
  element : (t.document.element? root).isSome
  linked : Linked t.document g
  children : t.document.children root = visits.map Visit.node
  seated : ∀ v ∈ visits, Seated F t.document g v
  distinct : (visits.map Visit.identity).Nodup
  used : ∀ v ∈ visits, v.identity ∈ F.used

section Passes

variable {F : Family} {root : NodeId} {visits done left : List Visit} {t : KeyedDom}
  {g g' : Registry}

theorem Row.grows (h : t.Row F root visits g) (hg : g.Extends g') : t.Row F root visits g' :=
  { h with
    linked := slotInvariant_linked.grows h.linked hg
    seated := fun v hv => (h.seated v hv).congr rfl (.of_extends hg) }

theorem Row.begins (h : t.Row F root visits g) (rule : Key.MatchRule) :
    ∃ t', t.beginPatch root .inner rule = .ok t' ∧ t'.Shelf F root [] visits g :=
  ⟨t.begun root rule, t.beginPatch_inner root rule, sound_begun h.tree h.element rule, rfl, rfl,
    h.linked, h.children, h.seated, h.distinct, h.used⟩

theorem Shelf.ends (h : t.Shelf F root done left g) :
    ∃ t', t.endPatch = .ok t' ∧ t'.Row F root done g := by
  obtain ⟨e, he, hindex⟩ := h.sound.current h.frames
  have htake : e.children.take done.length = done.map Visit.node := by
    rw [← Document.children_of_element? he, h.children]
    simp
  have hslots : t.document.SlotsWithin (pruned t.document ⟨root, done.length⟩) :=
    .of_keeps (Document.Keeps.editing.reshaping.prune _ _ _ _)
  have hrevises := Document.Revises.pruned h.sound.tree he hindex
  have hmem : ∀ v ∈ done, v.node ∈ (t.document.children root).take done.length := fun v hv => by
    rw [Document.children_of_element? he, htake]
    exact List.mem_map_of_mem hv
  have hsub : (done.map Visit.identity).Sublist ((done ++ left).map Visit.identity) :=
    (List.sublist_append_left done left).map _
  refine ⟨_, endPatch_eq h.sound h.frames h.mode, isTree_pruned h.sound.tree he, ?_,
    slotInvariant_linked.within h.linked hslots, (children_pruned h.sound.tree he).trans htake,
    fun v hv => ?_, h.distinct.sublist hsub, fun v hv => h.used v (List.mem_append_left _ hv)⟩
  · rw [document_setDocument, element?_pruned h.sound.tree he]
    rfl
  · refine (h.seated v (List.mem_append_left _ hv)).congr ?_ (.refl g)
    exact Document.element?_eq_of_node? (hrevises.visited _ (hmem v hv) _ .self)

end Passes

end KeyedDom

end KeyedRender
