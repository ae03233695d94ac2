import KeyedRender.Proofs.Target.Composed
import KeyedRender.Proofs.Target.Replay

/-!
# Following a composition again

On nodes that host a composition, following it again only visits them and assigns to their parent.
Every call skips the texts before its root, finds the component that the root holds, and attaches
it where it is. Components are counted, but none is created, and none is told of that was not known.
-/
namespace KeyedRender

namespace RenderM

variable {d : Document} {g : Registry} {type : ComponentType} {key : String} {n : NodeId}
  {slot : ComponentSlot} {c : Component}

theorem findAttached?_append_of_slots {l : List NodeId} (h : ∀ n ∈ l, d.slot? n = none)
    (rest : List NodeId) :
    findAttached? d g type key (l ++ rest) = findAttached? d g type key rest := by
  induction l with
  | nil => rfl
  | cons n l ih =>
    have hnone : (d.record? n).bind NodeRecord.slot = none := h n List.mem_cons_self
    rw [List.cons_append, findAttached?, hnone]
    exact ih fun n hn => h n (List.mem_cons_of_mem _ hn)

theorem findAttached?_cons_of_linked (hl : Linked d g) (hs : d.slot? n = some slot)
    (hc : g.component? slot.component = some c) (htype : c.type = type)
    (hkey : Key.isMatchingText key c.key = true) (rest : List NodeId) :
    findAttached? d g type key (n :: rest) = some slot.component := by
  obtain ⟨c', hc', -, htag, hslot⟩ := hl n slot hs
  obtain rfl := Option.some.inj (hc.symm.trans hc')
  have hfound : slot.tag = type.tag ∧ Key.isMatchingText key slot.key ∧
      (g.component? slot.component).map Component.type = some type :=
    ⟨htype ▸ htag, hslot ▸ hkey, by rw [hc, Option.map_some, htype]⟩
  have hsome : (d.record? n).bind NodeRecord.slot = some slot := hs
  rw [findAttached?, hsome]
  exact if_pos hfound

end RenderM

namespace Session

variable {s : Session KeyedDom} {root : NodeId} {slot : ComponentSlot}

theorem attach_again (hl : Linked s.target.document s.registry)
    (hs : s.target.document.slot? root = some slot) (hknown : slot.component ∈ s.registry.known) :
    ∃ g, s.registry.Recounts g ∧
      (s.attach slot.component root).learn slot.component = ⟨s.target, g⟩ := by
  obtain ⟨c, hc, hnode, -⟩ := hl root slot hs
  obtain ⟨g, hg, hattach⟩ : ∃ g, s.registry.Recounts g ∧
      s.attach slot.component root = ⟨s.target, g⟩ := by
    refine ⟨attachedRegistry s.target.document s.registry slot.component c root, ?_, ?_⟩
    · unfold attachedRegistry
      split
      · exact .placeAt hc hnode
      · exact .refl _
    · rw [Session.attach_eq hc, Document.attachedDocument_eq_self hs rfl hnode]
      rfl
  refine ⟨g, hg, ?_⟩
  rw [hattach, Session.learn, Registry.learn, if_pos (hg.known ▸ hknown)]

end Session

namespace KeyedDom

variable {ctx : Context} {s : Session KeyedDom} {g : Registry} {t : KeyedDom} {p id : NodeId}
  {visited ids more : List NodeId} {below : List Frame} {rendering : List ComponentId}
  {c inner next : Composition} {spec : ComponentSpec} {lead : Lead} {name key rootKey : String}
  {called : List (ComponentSpec × Option Nat)} {assigned : List Assignment}

def visiting (t : KeyedDom) (p : NodeId) (assigned : List Assignment) (ids : List NodeId)
    (below : List Frame) : KeyedDom :=
  (t.setDocument (t.document.updateElement p (Element.assignAll assigned))).reframed
    (⟨p, ids.length⟩ :: below)

theorem visiting_visiting (t : KeyedDom) (p : NodeId) (assigned others : List Assignment)
    (ids more : List NodeId) (below : List Frame) :
    (t.visiting p assigned ids below).visiting p others more below =
      t.visiting p (assigned ++ others) more below := by
  have hassign : Element.assignAll (assigned ++ others) =
      Element.assignAll others ∘ Element.assignAll assigned :=
    funext (Element.assignAll_append assigned others)
  unfold visiting reframed setDocument
  rw [hassign, ← Document.updateElement_updateElement]

theorem visiting_eq_reframed {e : Element} (he : t.document.element? p = some e)
    (hassigned : e.assignAll assigned = e) (ids : List NodeId) (below : List Frame) :
    t.visiting p assigned ids below = t.reframed (⟨p, ids.length⟩ :: below) := by
  unfold visiting
  rw [Document.updateElement_eq_self he hassigned]
  rfl

theorem children_visiting (t : KeyedDom) (p : NodeId) (assigned : List Assignment)
    (ids : List NodeId) (below : List Frame) (n : NodeId) :
    (t.visiting p assigned ids below).document.children n = t.document.children n :=
  Document.children_updateElement _ _ _ fun _ => rfl

namespace Stands

theorem visiting (h : t.Stands p visited below) (assigned : List Assignment)
    (hids : ids <+: t.document.children p) :
    (t.visiting p assigned ids below).Stands p ids below := by
  obtain ⟨hsound, -, -⟩ := h.visit hids
  refine ⟨hsound.updateElement p fun _ => rfl, rfl, ?_⟩
  rwa [children_visiting]

theorem keepsBelow_visiting (h : t.Stands p visited below) (assigned : List Assignment)
    (hids : ids ⊆ t.document.children p) (more : List NodeId) :
    t.document.KeepsBelow ids (t.visiting p assigned more below).document := fun _ hn _ hm =>
  Document.node?_updateElement_ne _ (Drawn.ne_of_below_child h.sound.tree (hids hn) hm)

theorem proceeds_visiting (hl : Linked s.target.document s.registry) (hg : s.registry.Recounts g)
    (assigned : List Assignment) (ids : List NodeId) :
    s.Proceeds rendering ⟨s.target.visiting p assigned ids below, g⟩ := by
  have hslots : s.target.document.SlotsWithin
      (s.target.visiting p assigned ids below).document := by
    intro n slot hs
    obtain ⟨e', he', hslot⟩ := Document.slot?_eq_some_iff.1 hs
    change (s.target.document.updateElement p (Element.assignAll assigned)).element? n = _ at he'
    rw [Document.element?_updateElement] at he'
    refine Document.slot?_eq_some_iff.2 ?_
    split at he'
    · next heq =>
      obtain ⟨e, he, rfl⟩ := Option.map_eq_some_iff.1 he'
      exact ⟨e, heq ▸ he, hslot⟩
    · exact ⟨e', he', hslot⟩
  exact (Session.Proceeds.of_slotsWithin hl hslots).trans
    (.of_extends (slotInvariant_linked.within hl hslots) hg.kept hg.grows.known)

theorem summons_again {texts : List NodeId} {slot : ComponentSlot} {c : Component}
    (h : s.target.Stands p visited below) (hl : Linked s.target.document s.registry)
    (hids : visited ++ (texts ++ id :: ids) <+: s.target.document.children p)
    (htexts : ∀ n ∈ texts, s.target.document.element? n = none)
    (hs : s.target.document.slot? id = some slot)
    (hc : s.registry.component? slot.component = some c)
    (htype : c.type = spec.type) (hkey : Key.isMatchingText key c.key = true) :
    s.summon ctx spec key = (slot.component, s.registry) := by
  have hslots : ∀ n ∈ texts, s.target.document.slot? n = none := fun n hn => by
    rw [Document.slot?, Document.record?, htexts n hn]
    rfl
  obtain ⟨after, hafter⟩ := hids
  have hdrop : (s.target.document.children p).drop visited.length =
      texts ++ id :: (ids ++ after) := by
    rw [← hafter]
    simp
  rw [Session.summon, h.siblingsFrom_pointer?, hdrop,
    RenderM.findAttached?_append_of_slots hslots,
    RenderM.findAttached?_cons_of_linked hl hs hc htype hkey]

theorem outside_visiting (h : s.target.Stands p visited below)
    (hl : Linked s.target.document s.registry) {frames : List Frame}
    (ho : s.Outside rendering frames) (hg : s.registry.Recounts g) (assigned : List Assignment)
    (hids : ids <+: s.target.document.children p) :
    Session.Outside rendering ⟨s.target.visiting p assigned ids below, g⟩ frames := by
  have hedits : s.target.document.EditsBelow p
      (s.target.visiting p assigned ids below).document :=
    .updateElement _ _ (fun _ => rfl) fun _ => ⟨rfl, rfl, rfl⟩
  exact ho.proceed (proceeds_visiting hl hg assigned ids) h.sound.tree
    (h.visiting assigned hids).sound.tree hedits.toGains

theorem enters_again {slot : ComponentSlot} (h : s.target.Stands p visited below)
    (hl : Linked s.target.document s.registry) (ho : s.Outside ctx.rendering below)
    (hs : s.target.document.slot? id = some slot) (hchild : id ∈ s.target.document.children p)
    (hg : s.registry.Recounts g) (assigned : List Assignment)
    (hids : ids <+: s.target.document.children p) (index : Nat) :
    Session.Outside (ctx.enter slot.component).rendering
      ⟨s.target.visiting p assigned ids below, g⟩ (⟨p, index⟩ :: below) := by
  obtain ⟨c, hc, -⟩ := hl id slot hs
  have hholds : ∀ n, RenderM.Holds s.target.document n slot.component →
      n ∈ s.target.document.children p := fun n hn => by
    obtain ⟨slot', hs', heq⟩ := Document.holds_iff.1 hn
    exact hl.unique hs hs' heq ▸ hchild
  exact h.outside_visiting hl
    (ho.enter h.sound.tree (Registry.lt_size_of_component? hc) hholds index) hg assigned hids

end Stands

/-- Wherever nodes host a composition, following it again visits them and returns the same. -/
def Recomposable (c : Composition) : Prop :=
  ∀ {ctx : Context} {s : Session KeyedDom} {p : NodeId} {visited ids : List NodeId}
    {below : List Frame} {called : List (ComponentSpec × Option Nat)},
    s.target.Stands p visited below → visited ++ ids <+: s.target.document.children p →
    Linked s.target.document s.registry → s.Outside ctx.rendering below →
    s.target.document.Hosts s.target.rule s.registry c ids called →
    ∃ g, s.registry.Recounts g ∧
      c.Runs ctx s called ⟨s.target.visiting p c.assigned (visited ++ ids) below, g⟩

theorem Recomposable.rest (hnext : Recomposable next) (h : s.target.Stands p visited below)
    (hids : visited ++ (ids ++ more) <+: s.target.document.children p)
    (hl : Linked s.target.document s.registry) (ho : s.Outside ctx.rendering below)
    (hg : s.registry.Recounts g) (assigned : List Assignment)
    (hhosts : s.target.document.Hosts s.target.rule s.registry next more called) :
    ∃ g', s.registry.Recounts g' ∧
      next.Runs ctx ⟨s.target.visiting p assigned (visited ++ ids) below, g⟩ called
        ⟨s.target.visiting p (assigned ++ next.assigned) (visited ++ (ids ++ more)) below, g'⟩ := by
  rw [← List.append_assoc] at hids ⊢
  have hvisited := (List.prefix_append (visited ++ ids) more).trans hids
  have hmore : more ⊆ s.target.document.children p :=
    List.Subset.trans (List.subset_append_right (visited ++ ids) more) hids.subset
  have hkeeps := h.keepsBelow_visiting assigned hmore (visited ++ ids)
  have hproceeds : s.Proceeds ctx.rendering
      ⟨s.target.visiting p assigned (visited ++ ids) below, g⟩ := Stands.proceeds_visiting hl hg _ _
  obtain ⟨g', hg', hruns⟩ := hnext (h.visiting assigned hvisited) (by rwa [children_visiting])
    hproceeds.linked (h.outside_visiting hl ho hg assigned hvisited) (hhosts.congr hkeeps hg.grows)
  rw [visiting_visiting] at hruns
  exact ⟨g', hg.trans hg', hruns⟩

theorem recomposable_plain (plan : Plan) (hnext : Recomposable next) :
    Recomposable (.plain plan next) := by
  intro ctx s p visited ids below called h hids hl ho hhosts
  cases hhosts with
  | plain hsettled hrest =>
    have hplan := h.runs_of_settled ((List.prefix_append _ _).trans
      (List.append_assoc visited _ _ ▸ hids)) hsettled
    obtain ⟨g, hg, hruns⟩ := hnext.rest h hids hl ho (.refl _) plan.assigned hrest
    exact ⟨g, hg, .plain hplan hruns⟩

theorem Recomposable.inside (hinner : Recomposable inner) {e : Element}
    (h : (t.reframed (⟨id, 0⟩ :: ⟨p, ids.length⟩ :: below)).Stands id [] (⟨p, ids.length⟩ :: below))
    (hl : Linked t.document g)
    (ho : Session.Outside ctx.rendering ⟨t, g⟩ (⟨p, ids.length⟩ :: below))
    (he : t.document.element? id = some e) (hassigned : e.assignAll inner.assigned = e)
    (hhosts : t.document.Hosts t.rule g inner e.children called) :
    ∃ g' t', g.Recounts g' ∧
      inner.Runs ctx ⟨t.reframed (⟨id, 0⟩ :: ⟨p, ids.length⟩ :: below), g⟩ called ⟨t', g'⟩ ∧
      t'.closeElement = .ok (some id, t.reframed (⟨p, ids.length⟩ :: below)) := by
  have hchildren : e.children = t.document.children id := (Document.children_of_element? he).symm
  rw [hchildren] at hhosts
  obtain ⟨g', hg', hruns⟩ := hinner (s := ⟨_, g⟩) h List.prefix_rfl hl ⟨ho.created, ho.away⟩ hhosts
  have hvisited : (t.reframed (⟨id, 0⟩ :: ⟨p, ids.length⟩ :: below)).visiting id inner.assigned
      (t.document.children id) (⟨p, ids.length⟩ :: below) =
      t.reframed (⟨id, (t.document.children id).length⟩ :: ⟨p, ids.length⟩ :: below) :=
    visiting_eq_reframed he hassigned _ _
  exact ⟨g', _, hg', hruns,
    (congrArg closeElement hvisited).trans (h.visit List.prefix_rfl).closes_again⟩

theorem recomposable_element (name key : String) (hinner : Recomposable inner)
    (hnext : Recomposable next) : Recomposable (.element name key inner next) := by
  intro ctx s p visited ids below called h hids hl ho hhosts
  cases hhosts with
  | @element _ _ _ _ id ids e called called' he haccepts hassigned hinside hrest =>
    have hid : visited ++ [id] <+: s.target.document.children p := by
      rw [List.append_cons] at hids
      exact (List.prefix_append _ _).trans hids
    obtain ⟨hopen, hstands⟩ := h.opens_again hid he haccepts
    obtain ⟨g, t, hg, hruns, hclose⟩ := hinner.inside hstands hl (ho.push _) he hassigned hinside
    obtain ⟨e', -, he', -⟩ := h.exists_element
    have hsame : s.target.visiting p [] (visited ++ [id]) below =
      s.target.reframed (⟨p, (visited ++ [id]).length⟩ :: below) := visiting_eq_reframed he' rfl _ _
    have hids' : visited ++ ([id] ++ ids) <+: s.target.document.children p := hids
    obtain ⟨g', hg', hruns'⟩ := hnext.rest h hids' hl ho hg [] hrest
    rw [hsame] at hruns'
    exact ⟨g', hg', .element hopen hruns hclose hruns'⟩

theorem recomposable_component (spec : ComponentSpec) (key : String) (lead : Lead)
    (rootKey : String) (hinner : Recomposable inner) (hnext : Recomposable next) :
    Recomposable (.component spec key lead rootKey inner next) := by
  intro ctx s p visited ids below called h hids hl ho hhosts
  cases hhosts with
  | @component _ _ _ _ _ _ texts ids id e slot c called called' hsettled he haccepts hassigned hslot
      hc htype hkey hknown hinside hrest =>
    have hs : s.target.document.slot? id = some slot :=
      Document.slot?_eq_some_iff.2 ⟨e, he, hslot⟩
    have hchild : id ∈ s.target.document.children p := hids.subset (by simp)
    have hnotRendering := h.notMem_rendering ho hchild hs
    have hsummon : s.summon ctx spec key = (slot.component, s.registry) :=
      h.summons_again hl hids (hsettled.element?_eq_none lead.2) hs hc htype hkey
    have hbefore : visited ++ texts <+: s.target.document.children p := by
      rw [← List.append_assoc] at hids
      exact (List.prefix_append _ _).trans hids
    have hid : visited ++ texts ++ [id] <+: s.target.document.children p := by
      rw [← List.append_assoc, List.append_cons] at hids
      exact (List.prefix_append _ _).trans hids
    have hlead := h.runs_of_settled hbefore hsettled
    have hkeeps := h.keepsBelow_visiting lead.1.assigned
      (List.cons_subset.2 ⟨hchild, List.nil_subset _⟩) (visited ++ texts)
    have he' := (hkeeps.element? (List.mem_singleton_self id)).trans he
    obtain ⟨hopen, hstands⟩ := (h.visiting lead.1.assigned hbefore).opens_again
      (by rwa [children_visiting]) he' haccepts
    -- Inside of the root, the component is counted and rendering as well.
    have hcounted := Registry.Recounts.countRender s.registry slot.component
    have houtside := h.enters_again hl ho hs hchild hcounted lead.1.assigned hbefore
      (visited ++ texts ++ [id]).length
    have hproceeds : ∀ g, s.registry.Recounts g → s.Proceeds ctx.rendering
        ⟨s.target.visiting p lead.1.assigned (visited ++ texts) below, g⟩ := fun g hg =>
      Stands.proceeds_visiting hl hg _ _
    have hchildren := hkeeps.children (List.mem_singleton_self id)
    rw [Document.children_of_element? he] at hchildren
    obtain ⟨g₃, t₃, hg₃, hruns, hclose⟩ := hinner.inside hstands (hproceeds _ hcounted).linked
      houtside he' hassigned (hinside.congr hchildren hcounted.grows)
    have hcounted₃ := hcounted.trans hg₃
    have hs' : (s.target.visiting p lead.1.assigned (visited ++ texts) below).document.slot? id =
        some slot := Document.slot?_eq_some_iff.2 ⟨e, he', hslot⟩
    obtain ⟨g₅, hg₅, hattach⟩ := Session.attach_again
      (s := ⟨(s.target.visiting p lead.1.assigned (visited ++ texts) below).reframed
        (⟨p, (visited ++ texts ++ [id]).length⟩ :: below), g₃⟩)
      (hproceeds g₃ hcounted₃).linked hs' (hcounted₃.known ▸ hknown)
    have hcounted₅ := hcounted₃.trans hg₅
    have hids' : visited ++ ((texts ++ [id]) ++ ids) <+: s.target.document.children p := by
      simpa using hids
    obtain ⟨g', hg', hruns'⟩ := hnext.rest h hids' hl ho hcounted₅ lead.1.assigned hrest
    obtain ⟨c₅, hc₅, -⟩ := hcounted₅.kept.kept hc
    refine ⟨g', hg', ?_⟩
    rw [List.append_assoc texts, ← List.append_assoc visited texts] at hruns'
    rw [← hcounted₅.known, ← Session.index?_eq (s := ⟨_, g₅⟩) hc₅]
    exact .component hsummon hnotRendering hlead hopen hruns hclose hattach.symm hruns'

/-- Following a composition again visits what the first time has left, and returns the same. -/
theorem recomposable (c : Composition) : Recomposable c := by
  induction c with
  | done =>
    intro ctx s p visited ids below called h hids hl ho hhosts
    cases hhosts
    obtain ⟨e, -, he, -⟩ := h.exists_element
    refine ⟨s.registry, .refl _, ?_⟩
    rw [List.append_nil, visiting_eq_reframed he rfl, h.reframed_eq_self]
    exact .done
  | plain plan next ih => exact recomposable_plain plan ih
  | element name key inner next ihinner ih => exact recomposable_element name key ihinner ih
  | component spec key lead rootKey inner next ihinner ih =>
    exact recomposable_component spec key lead rootKey ihinner ih

end KeyedDom

end KeyedRender
