import KeyedRender.Proofs.Document.Attaching
import KeyedRender.Proofs.Document.Siblings
import KeyedRender.Proofs.Key.Delimited
import KeyedRender.Proofs.Render.Registry
import KeyedRender.Proofs.Script.Composition
import KeyedRender.Proofs.Target.Confined
import KeyedRender.Proofs.Target.Settled

/-!
# What a composition leaves behind

Following a composition never fails on a sound target whose slots and components name each other.
A call finds its component on a child that was not visited, and attaches it to one that is visited
then, so that nothing later in the pass finds it again or takes its slot. What a call finds is not
rendering: a component that is rendering was found on a child of an outer element.
-/
namespace KeyedRender

open RenderM (Holds)

theorem Document.Gains.parent?_eq {d d' : Document} (h : d.Gains d') (hd : d.IsTree)
    (hd' : d'.IsTree) {n q : NodeId} (hp : d.parent? n = some q) (hn : d'.isLive n = true) :
    d'.parent? n = some q := by
  have hne : n ≠ 0 := Nat.ne_of_gt (Nat.lt_of_le_of_lt (Nat.zero_le _) (hd.older hp))
  obtain ⟨q', hq'⟩ := Option.isSome_iff_exists.1 (TreeBut.rooted hd' hn hne)
  obtain ⟨node, hnode⟩ := isLive_iff.1 (isLive_of_parent? hp)
  rcases h.grown q' n (hd'.mem_children hq') with hchild | hnew
  · rw [hq', ← hp, hd.parent hchild]
  · exact absurd (lt_size_of_node? hnode) (Nat.not_lt.2 hnew)

namespace Session

/-- From one state in a pass to a later one while some components are rendering: none of them gets
a slot. -/
structure Proceeds (rendering : List ComponentId) (s s' : Session KeyedDom) : Prop where
  linked : Linked s'.target.document s'.registry
  grows : s.registry.Grows s'.registry
  slots : ∀ n slot, s'.target.document.slot? n = some slot → slot.component ∈ rendering →
    s.target.document.slot? n = some slot

/-- Components that are rendering were created, and are attached to children of outer elements. -/
structure Outside (rendering : List ComponentId) (s : Session KeyedDom) (below : List Frame) :
    Prop where
  created : ∀ id ∈ rendering, id < s.registry.components.size
  away : ∀ n slot, s.target.document.slot? n = some slot → slot.component ∈ rendering →
    ∃ f ∈ below, s.target.document.parent? n = some f.parent

variable {rendering more : List ComponentId} {s s' s'' : Session KeyedDom} {t : KeyedDom}
  {g : Registry} {below : List Frame} {id : ComponentId} {p : NodeId}

namespace Proceeds

theorem trans (h : s.Proceeds rendering s') (h' : s'.Proceeds rendering s'') :
    s.Proceeds rendering s'' :=
  ⟨h'.linked, h.grows.trans h'.grows, fun n slot hs hid =>
    h.slots n slot (h'.slots n slot hs hid) hid⟩

theorem mono (h : s.Proceeds more s') (hsub : rendering ⊆ more) : s.Proceeds rendering s' :=
  ⟨h.linked, h.grows, fun n slot hs hid => h.slots n slot hs (hsub hid)⟩

theorem of_slotsWithin (hl : Linked s.target.document s.registry)
    (h : s.target.document.SlotsWithin t.document) : s.Proceeds rendering ⟨t, s.registry⟩ :=
  ⟨slotInvariant_linked.within hl h, .refl _, fun n slot hs _ => h n slot hs⟩

theorem of_extends (hl : Linked s.target.document s.registry) (h : s.registry.Extends g)
    (hknown : s.registry.known <+: g.known) : s.Proceeds rendering ⟨s.target, g⟩ :=
  ⟨slotInvariant_linked.grows hl h, .of_extends h hknown, fun _ _ hs _ => hs⟩

theorem attach (hl : Linked s.target.document s.registry) (hid : id ∉ rendering) (root : NodeId) :
    s.Proceeds rendering (s.attach id root) := by
  unfold Session.attach
  split
  · next c hc =>
    refine ⟨slotInvariant_linked.attached root hl trivial hc, .attached ..,
      fun n slot hs hslot => ?_⟩
    rcases Document.slot?_attachedDocument hs with ⟨-, rfl | ⟨rfl, -⟩, -⟩ | ⟨-, hold⟩
    · exact absurd hslot hid
    · exact absurd hslot hid
    · exact Document.slotsWithin_detach _ _ _ n slot hold
  · exact of_extends hl (.refl _) List.prefix_rfl

theorem learn (hl : Linked s.target.document s.registry) (id : ComponentId) :
    s.Proceeds rendering (s.learn id) :=
  of_extends hl (s.registry.extends_learn id) (Registry.Grows.learn _ _).known

end Proceeds

namespace Outside

theorem proceed (h : Outside rendering s below) (hp : s.Proceeds rendering s')
    (hd : s.target.document.IsTree) (hd' : s'.target.document.IsTree)
    (hg : s.target.document.Gains s'.target.document) : Outside rendering s' below := by
  refine ⟨fun id hid => Nat.lt_of_lt_of_le (h.created id hid) hp.grows.size,
    fun n slot hs hslot => ?_⟩
  obtain ⟨f, hf, hparent⟩ := h.away n slot (hp.slots n slot hs hslot) hslot
  obtain ⟨e, he, -⟩ := Document.slot?_eq_some_iff.1 hs
  exact ⟨f, hf, hg.parent?_eq hd hd' hparent (Document.isLive_of_element? he)⟩

theorem push (h : Outside rendering s below) (f : Frame) : Outside rendering s (f :: below) := by
  refine ⟨h.created, fun n slot hs hslot => ?_⟩
  obtain ⟨f', hf', hparent⟩ := h.away n slot hs hslot
  exact ⟨f', List.mem_cons_of_mem f hf', hparent⟩

theorem enter (h : Outside rendering s below) (hd : s.target.document.IsTree)
    (hid : id < s.registry.components.size)
    (hheld : ∀ n, Holds s.target.document n id → n ∈ s.target.document.children p) (index : Nat) :
    Outside (id :: rendering) s (⟨p, index⟩ :: below) := by
  refine ⟨fun other hother => ?_, fun n slot hs hslot => ?_⟩
  · rcases List.mem_cons.1 hother with rfl | hother
    · exact hid
    · exact h.created other hother
  · rcases List.mem_cons.1 hslot with heq | hslot
    · exact ⟨_, List.mem_cons_self, hd.parent (hheld n (Document.holds_iff.2 ⟨slot, hs, heq⟩))⟩
    · exact (h.push _).away n slot hs hslot

end Outside

end Session

namespace KeyedDom

variable {t t' : KeyedDom} {p root : NodeId} {visited : List NodeId} {below : List Frame}

theorem Stands.siblingsFrom_pointer? (h : t.Stands p visited below) :
    t.document.siblingsFrom t.pointer? = (t.document.children p).drop visited.length := by
  have hpointer : t.pointer? = (t.document.children p)[visited.length]? := by
    simp [pointer?, h.frames]
  rw [hpointer, h.sound.tree.siblingsFrom_eq]

/-- A component that a call found behind the visited children, or created. -/
structure Summoned (s : Session KeyedDom) (p : NodeId) (visited : List NodeId)
    (rendering : List ComponentId) (spec : ComponentSpec) (key : String) (id : ComponentId)
    (g : Registry) : Prop where
  notRendering : id ∉ rendering
  proceeds : ∀ rendering', s.Proceeds rendering' ⟨s.target, g⟩
  fits : ∃ c, g.component? id = some c ∧ c.type = spec.type ∧ Key.isMatchingText key c.key = true
  held : ∀ n, Holds s.target.document n id →
    n ∈ (s.target.document.children p).drop visited.length

theorem Stands.notMem_rendering {s : Session KeyedDom} {rendering : List ComponentId}
    (h : s.target.Stands p visited below) (ho : s.Outside rendering below) {n : NodeId}
    {slot : ComponentSlot} (hn : n ∈ s.target.document.children p)
    (hs : s.target.document.slot? n = some slot) : slot.component ∉ rendering := by
  intro hrendering
  obtain ⟨f, hf, hparent⟩ := ho.away n slot hs hrendering
  have hframed := h.sound.framed
  rw [h.frames] at hframed
  refine hframed.parent_ne h.sound.tree f hf ?_
  exact Option.some.inj (hparent.symm.trans (h.sound.tree.parent hn))

theorem Stands.summons {s : Session KeyedDom} {ctx : Context}
    (h : s.target.Stands p visited below) (hl : Linked s.target.document s.registry)
    (ho : s.Outside ctx.rendering below) (spec : ComponentSpec) (key : String) :
    Summoned s p visited ctx.rendering spec key (s.summon ctx spec key).1
      (s.summon ctx spec key).2 := by
  unfold Session.summon
  rw [h.siblingsFrom_pointer?]
  cases hfound : RenderM.findAttached? s.target.document s.registry spec.type key
      ((s.target.document.children p).drop visited.length) with
  | some id =>
    obtain ⟨n, hn, slot, hs, rfl, -, hmatch, htype⟩ := slot_of_findAttached? hfound
    obtain ⟨c, hc, -, -, hkey⟩ := hl n slot hs
    refine ⟨h.notMem_rendering ho (List.mem_of_mem_drop hn) hs,
      fun _ => .of_extends hl (.refl _) List.prefix_rfl, ⟨c, hc, ?_, hkey ▸ hmatch⟩,
      fun n' hn' => ?_⟩
    · rw [hc] at htype
      exact Option.some.inj htype
    · obtain ⟨slot', hs', heq⟩ := Document.holds_iff.1 hn'
      exact hl.unique hs hs' heq ▸ hn
  | none =>
    refine ⟨fun hid => Nat.lt_irrefl _ (ho.created _ hid),
      fun _ => .of_extends hl (s.registry.extends_create _) List.prefix_rfl,
      ⟨.new spec.type key (spec.label ++ "/" ++ ctx.injected.compactText),
        (Registry.component?_create ..).trans (if_pos rfl), rfl, Key.isMatchingText_self key⟩,
      fun n hn => ?_⟩
    obtain ⟨slot, hs, heq⟩ := Document.holds_iff.1 hn
    obtain ⟨c, hc, -⟩ := hl n slot hs
    exact absurd (Registry.lt_size_of_component? hc) (heq ▸ Nat.lt_irrefl _)

theorem slotsWithin_changeCurrent {assignment : Assignment}
    (h : t.changeCurrent (Element.assign assignment) = .ok t') :
    t.document.SlotsWithin t'.document := by
  have hassign : ∀ e, (Element.assign assignment e).record.slot = e.record.slot := fun e => by
    cases assignment <;> rfl
  have hkeeps := KeepsSlots.of_records (keepsRecords_changeCurrent t hassign)
  rw [h] at hkeeps
  exact hkeeps

theorem slotsWithin_writeBlob {node : NodeId} {markup : String}
    (h : t.writeBlob node markup = .ok t') : t.document.SlotsWithin t'.document := by
  unfold writeBlob at h
  split at h
  · cases h
    exact .refl _
  · cases hwrite : t.setInnerMarkup node markup with
    | error f => simp [hwrite, Except.map] at h
    | ok t₁ =>
      simp only [hwrite, Except.map, Except.ok.injEq] at h
      have hcall : KeyedDom.apply (.setInnerMarkup node markup) t = .ok (none, t₁) := by
        simp only [KeyedDom.apply, hwrite, Except.map]
      have hrecord : t₁.document.SlotsWithin
          (t₁.document.updateRecord node fun r => { r with blob := some markup }) :=
        .of_keeps (.updateRecord _ node fun _ => rfl)
      rw [← h]
      exact (slotsWithin_apply (.setInnerMarkup node markup) hcall).trans hrecord

theorem slotsWithin_of_runs {plan : Plan} (h : plan.Runs t t') :
    t.document.SlotsWithin t'.document := by
  induction h with
  | done => exact .refl _
  | assign hassign _ ih => exact (slotsWithin_changeCurrent hassign).trans ih
  | @text value _ _ _ _ _ hwrite _ ih => exact (slotsWithin_apply (.text value) hwrite).trans ih
  | @blob key _ _ _ _ _ _ t₂ _ _ hopen hwrite hclose _ ih =>
    have hcloses := slotsWithin_apply .closeElement hclose
    rw [skipRest, document_skipTo] at hcloses
    exact (slotsWithin_apply (.openElement blobName key) hopen).trans
      ((slotsWithin_writeBlob hwrite).trans (hcloses.trans ih))
  | @element name key _ _ _ _ _ _ _ _ _ hopen _ hclose _ ihinner ih =>
    exact (slotsWithin_apply (.openElement name key) hopen).trans
      (ihinner.trans ((slotsWithin_apply .closeElement hclose).trans ih))

theorem Advances.attached {t₁ : KeyedDom} {assigned : List Assignment} {id : ComponentId}
    (h : t.Advances p visited [root] below assigned t₁)
    (hheld : ∀ n, Holds t₁.document n id → n ∈ t₁.document.children p ∧ n ∉ visited)
    (c : Component) : t.Advances p visited [root] below assigned
      (t₁.setDocument (attachedDocument t₁.document id c root)) := by
  have htree := h.stands.sound.tree
  have hvisited := h.stands.visited
  have hroot : root ∈ t₁.document.children p := hvisited.subset (by simp)
  have hnotVisited : root ∉ visited := fun hmem => by
    have hnodup := (Document.TreeBut.nodup htree p).sublist hvisited.sublist
    exact (List.nodup_append.1 hnodup).2.2 root hmem root (by simp) rfl
  have hedits := Document.EditsBelow.attachedDocument (c := c) htree hroot
    fun n hn => (hheld n hn).1
  have hp : (attachedDocument t₁.document id c root).element? p = t₁.document.element? p := by
    refine Document.element?_eq_of_node? (Document.node?_attachedDocument
      (Nat.ne_of_lt (htree.lt hroot)) fun hholds => ?_)
    exact Nat.lt_irrefl _ (htree.lt (hheld p hholds).1)
  -- Nothing at or below a visited child is the root or held the component: those are its siblings.
  have hkeeps : t₁.document.KeepsBelow visited (attachedDocument t₁.document id c root) := by
    intro v hv m hm
    have hchild : v ∈ t₁.document.children p := hvisited.subset (List.mem_append_left _ hv)
    have hsibling : ∀ n ∈ t₁.document.children p, n ∉ visited → m ≠ n := by
      rintro n hn hnot rfl
      exact htree.not_below_siblings hchild hn (fun heq => hnot (heq ▸ hv)) hm .self
    refine Document.node?_attachedDocument (hsibling root hroot hnotVisited) fun hholds => ?_
    exact hsibling m (hheld m hholds).1 (hheld m hholds).2 rfl
  refine ⟨⟨h.stands.sound.attached id c root, h.stands.frames, ?_⟩, h.pass, fun e he => ?_,
    h.edits.trans (Document.TreeBut.pointsLater htree) .self hedits, h.keeps.trans ?_⟩
  · rw [document_setDocument, Document.children_attachedDocument]
    exact hvisited
  · rw [document_setDocument, hp]
    exact h.element e he
  · exact hkeeps

end KeyedDom

/-- Nodes on which everything is as a composition would leave it, and what its calls would return
then: each root holds a component that its call would find there. -/
inductive Document.Hosts (d : Document) (rule : Key.MatchRule) (g : Registry) :
    Composition → List NodeId → List (ComponentSpec × Option Nat) → Prop
  | done : Hosts d rule g .done [] []
  | plain {plan : Plan} {next : Composition} {ids more : List NodeId}
      {called : List (ComponentSpec × Option Nat)} : d.Settled rule plan ids →
      Hosts d rule g next more called → Hosts d rule g (.plain plan next) (ids ++ more) called
  | element {name key : String} {inner next : Composition} {id : NodeId} {ids : List NodeId}
      {e : Element} {called called' : List (ComponentSpec × Option Nat)} :
      d.element? id = some e → rule.accepts name e.name key e.key = true →
      e.assignAll inner.assigned = e → Hosts d rule g inner e.children called →
      Hosts d rule g next ids called' →
      Hosts d rule g (.element name key inner next) (id :: ids) (called ++ called')
  | component {spec : ComponentSpec} {key rootKey : String} {lead : Lead}
      {inner next : Composition} {texts ids : List NodeId} {id : NodeId} {e : Element}
      {slot : ComponentSlot} {c : Component} {called called' : List (ComponentSpec × Option Nat)} :
      d.Settled rule lead.1 texts → d.element? id = some e →
      rule.accepts spec.name e.name rootKey e.key = true → e.assignAll inner.assigned = e →
      e.record.slot = some slot → g.component? slot.component = some c → c.type = spec.type →
      Key.isMatchingText key c.key = true → slot.component ∈ g.known →
      Hosts d rule g inner e.children called → Hosts d rule g next ids called' →
      Hosts d rule g (.component spec key lead rootKey inner next) (texts ++ id :: ids)
        (called ++ (spec, some (g.known.idxOf slot.component)) :: called')

namespace Document

variable {d d' : Document} {rule : Key.MatchRule} {g g' : Registry} {c : Composition}
  {ids : List NodeId} {called : List (ComponentSpec × Option Nat)}

theorem Hosts.congr (h : d.Hosts rule g c ids called) (hk : d.KeepsBelow ids d')
    (hg : g.Grows g') : d'.Hosts rule g' c ids called := by
  induction h with
  | done => exact .done
  | plain hsettled _ ih =>
    exact .plain (hsettled.congr (hk.mono (List.subset_append_left _ _)))
      (ih (hk.mono (List.subset_append_right _ _)))
  | @element name key inner next id ids e called called' he haccepts hassigned _ _ ihinner ih =>
    refine .element ?_ haccepts hassigned (ihinner ?_) (ih (hk.mono (List.subset_cons_self id ids)))
    · rwa [hk.element? (by simp)]
    · rw [← children_of_element? he]
      exact hk.children (by simp)
  | @component spec key rootKey lead inner next texts ids id e slot c called called' hsettled he
      haccepts hassigned hslot hc htype hkey hknown _ _ ihinner ih =>
    obtain ⟨c', hc', htype', hkey'⟩ := hg.kept hc
    rw [← hg.idxOf_known hknown]
    refine .component (hsettled.congr (hk.mono (List.subset_append_left _ _))) ?_ haccepts hassigned
      hslot hc' (htype'.trans htype) (hkey' ▸ hkey) (hg.mem_known hknown) (ihinner ?_) (ih ?_)
    · rwa [hk.element? (by simp)]
    · rw [← children_of_element? he]
      exact hk.children (by simp)
    · exact hk.mono fun n hn => List.mem_append_right _ (List.mem_cons_of_mem _ hn)

theorem Settled.element?_eq_none {plan : Plan} (h : d.Settled rule plan ids) (hlead : plan.IsLead) :
    ∀ n ∈ ids, d.element? n = none := by
  induction h with
  | done => simp
  | assign _ ih => exact ih hlead
  | @text value next id ids hc _ ih =>
    refine List.forall_mem_cons.2 ⟨?_, ih hlead⟩
    simp [element?, hc]
  | blob => exact hlead.elim
  | element => exact hlead.elim

end Document

namespace KeyedDom

structure Composed (ctx : Context) (s : Session KeyedDom) (p : NodeId) (visited ids : List NodeId)
    (below : List Frame) (c : Composition) (called : List (ComponentSpec × Option Nat))
    (s' : Session KeyedDom) : Prop where
  runs : c.Runs ctx s called s'
  advances : s.target.Advances p visited ids below c.assigned s'.target
  proceeds : s.Proceeds ctx.rendering s'
  hosts : s'.target.document.Hosts s.target.rule s'.registry c ids called

structure ComposedUpTo (ctx : Context) (s : Session KeyedDom) (p : NodeId)
    (visited ids : List NodeId) (below : List Frame) (assigned : List Assignment)
    (c rest : Composition) (called : List (ComponentSpec × Option Nat)) (s' : Session KeyedDom) :
    Prop where
  runs : ∀ {called' s''}, rest.Runs ctx s' called' s'' → c.Runs ctx s (called ++ called') s''
  advances : s.target.Advances p visited ids below assigned s'.target
  proceeds : s.Proceeds ctx.rendering s'
  hosts : ∀ {more called' d g}, s'.target.document.KeepsBelow ids d → s'.registry.Grows g →
    d.Hosts s.target.rule g rest more called' →
    d.Hosts s.target.rule g c (ids ++ more) (called ++ called')

/-- Wherever a composition is followed, that succeeds, and the nodes that were visited hold what
was attached. -/
def Composable (c : Composition) : Prop :=
  ∀ {ctx : Context} {s : Session KeyedDom} {p : NodeId} {visited : List NodeId}
    {below : List Frame}, s.target.Stands p visited below →
    Linked s.target.document s.registry → s.Outside ctx.rendering below →
    ∃ ids called s', Composed ctx s p visited ids below c called s'

variable {ctx : Context} {s s' s₂ : Session KeyedDom} {g : Registry} {t t₁ t₄ : KeyedDom}
  {p id root : NodeId} {visited ids : List NodeId} {below : List Frame} {e : Element}
  {name key rootKey : String} {spec : ComponentSpec} {lead : Lead} {assigned : List Assignment}
  {c inner next : Composition} {called : List (ComponentSpec × Option Nat)}

theorem ComposedUpTo.exists_composed
    (h : ComposedUpTo ctx s p visited ids below assigned c next called s')
    (hassigned : c.assigned = assigned ++ next.assigned) (hstands : s.target.Stands p visited below)
    (ho : s.Outside ctx.rendering below) (hnext : Composable next) :
    ∃ ids called s', Composed ctx s p visited ids below c called s' := by
  obtain ⟨more, called', s'', hrest⟩ := hnext h.advances.stands h.proceeds.linked
    (ho.proceed h.proceeds hstands.sound.tree h.advances.stands.sound.tree
      h.advances.edits.toGains)
  have hrule : s'.target.rule = s.target.rule := h.advances.pass.2
  refine ⟨ids ++ more, called ++ called', s'', h.runs hrest.runs, ?_,
    h.proceeds.trans hrest.proceeds, h.hosts ?_ hrest.proceeds.grows (hrule ▸ hrest.hosts)⟩
  · rw [hassigned]
    exact h.advances.trans hrest.advances
  · exact hrest.advances.keeps.mono (List.subset_append_right _ _)

theorem OpensAt.closes (h : t.OpensAt p visited below name key id e t₁)
    (hinner : Composed ctx ⟨t₁, g⟩ id [] ids (⟨p, (visited ++ [id]).length⟩ :: below) inner called
      s₂) : ∃ closed t', s₂.target.closeElement = .ok (closed, t') ∧
      t.Advances p visited [id] below [] t' ∧
      t'.document.element? id = some { e.assignAll inner.assigned with children := ids } ∧
      t'.document.Hosts t.rule s₂.registry inner ids called := by
  obtain ⟨closed, t', hclose, hsound, hframes, hpass, hedits, hkeeps, helement⟩ :=
    hinner.advances.stands.closes
  have hlater := Document.TreeBut.pointsLater hinner.advances.stands.sound.tree
  have hwithin := h.within hsound hframes (hinner.advances.pass.trans hpass)
    (hinner.advances.edits.trans hlater .self hedits)
  obtain ⟨l, hl⟩ := hinner.advances.element e h.element
  have hrule : t₁.rule = t.rule := h.advances.pass.2
  exact ⟨closed, t', hclose, hwithin, (helement _ hl).trans rfl,
    hrule ▸ hinner.hosts.congr hkeeps (.refl _)⟩

theorem Summoned.held_later {g₂ : Registry} {component : ComponentId} {texts : List NodeId}
    (h : Summoned s p visited ctx.rendering spec key component g)
    (hstands : s.target.Stands p visited below) (hd : t₄.document.IsTree)
    (hp : Session.Proceeds [component] ⟨s.target, g⟩ ⟨t₄, g₂⟩)
    (hg : s.target.document.Gains t₄.document)
    (htexts : ∀ n ∈ texts, t₄.document.element? n = none) {n : NodeId}
    (hn : Holds t₄.document n component) :
    n ∈ t₄.document.children p ∧ n ∉ visited ++ texts := by
  have htree := hstands.sound.tree
  obtain ⟨slot, hs, heq⟩ := Document.holds_iff.1 hn
  obtain ⟨e, he, -⟩ := Document.slot?_eq_some_iff.1 hs
  have hold := hp.slots n slot hs (heq ▸ List.mem_singleton_self _)
  have hdrop := h.held n (Document.holds_iff.2 ⟨slot, hold, heq⟩)
  have hparent := hg.parent?_eq htree hd (htree.parent (List.mem_of_mem_drop hdrop))
    (Document.isLive_of_element? he)
  refine ⟨hd.mem_children hparent, fun hmem => (List.mem_append.1 hmem).elim (fun hvisited => ?_)
    fun htext => ?_⟩
  · have hnodup := Document.TreeBut.nodup htree p
    obtain ⟨left, hleft⟩ := hstands.visited
    rw [← hleft] at hdrop hnodup
    rw [List.drop_left] at hdrop
    exact (List.nodup_append.1 hnodup).2.2 n hvisited n hdrop rfl
  · rw [htexts n htext] at he
    cases he

theorem Summoned.opensRoot {component : ComponentId} {texts : List NodeId} {plan : Plan}
    {t₂ : KeyedDom} (h : Summoned s p visited ctx.rendering spec key component g)
    (hstands : s.target.Stands p visited below) (ho : s.Outside ctx.rendering below)
    (hplan : plan.Runs s.target t₁)
    (hadvances : s.target.Advances p visited texts below plan.assigned t₁)
    (hopens : t₁.OpensAt p (visited ++ texts) below spec.name rootKey root e t₂) :
    (∀ rendering, Session.Proceeds rendering ⟨s.target, g⟩
      ⟨t₂, g.update component Component.countRender⟩) ∧
    Session.Outside (component :: ctx.rendering) ⟨t₂, g.update component Component.countRender⟩
      (⟨p, (visited ++ texts ++ [root]).length⟩ :: below) := by
  have htree := hstands.sound.tree
  have hproceeds : ∀ rendering, Session.Proceeds rendering ⟨s.target, g⟩
      ⟨t₂, g.update component Component.countRender⟩ := by
    intro rendering
    have hcounted : Session.Proceeds rendering ⟨s.target, g⟩
        ⟨s.target, g.update component Component.countRender⟩ :=
      .of_extends (h.proceeds rendering).linked (g.extends_countRender component) List.prefix_rfl
    exact hcounted.trans (.of_slotsWithin hcounted.linked ((slotsWithin_of_runs hplan).trans
      (slotsWithin_apply (.openElement spec.name rootKey) hopens.opens)))
  obtain ⟨c, hc, -⟩ := h.fits
  have hsummoned := (ho.proceed (h.proceeds _) htree htree (.refl _)).enter htree
    (Registry.lt_size_of_component? hc) fun n hn => List.mem_of_mem_drop (h.held n hn)
  exact ⟨hproceeds, (hsummoned _).proceed (hproceeds _) htree hopens.stands.sound.tree
    (hadvances.edits.toGains.trans hopens.advances.edits.toGains)⟩

theorem keepsBelow_attached {component : ComponentId} (hd : t₄.document.IsTree)
    (hroot : root ∈ t₄.document.children p)
    (hheld : ∀ n, Holds t₄.document n component → n ∈ t₄.document.children p) (c : Component) :
    t₄.document.KeepsBelow (t₄.document.children root)
      (attachedDocument t₄.document component c root) := by
  intro child hchild m hm
  have hne : m ≠ root := Drawn.ne_of_below_child hd hchild hm
  refine Document.node?_attachedDocument hne fun hholds => ?_
  exact hd.not_below_siblings hroot (hheld m hholds) hne.symm (.head hchild hm) .self

structure Returned (rendering : List ComponentId) (t : KeyedDom) (p root : NodeId)
    (visited : List NodeId) (below : List Frame) (e : Element) (component : ComponentId)
    (s s' : Session KeyedDom) : Prop where
  advances : t.Advances p visited [root] below [] s'.target
  proceeds : s.Proceeds rendering s'
  known : component ∈ s'.registry.known
  root : ∃ r slot, s'.target.document.element? root = some { e with record := r } ∧
    r.slot = some slot ∧ slot.component = component
  inside : s.target.document.KeepsBelow e.children s'.target.document

theorem Advances.returns {component : ComponentId} {held : Component}
    {rendering : List ComponentId} (h : t.Advances p visited [root] below [] s.target)
    (hl : Linked s.target.document s.registry)
    (hheld : ∀ n, Holds s.target.document n component →
      n ∈ s.target.document.children p ∧ n ∉ visited) (hrendering : component ∉ rendering)
    (hc : s.registry.component? component = some held)
    (he : s.target.document.element? root = some e) :
    Returned rendering t p root visited below e component s
      ((s.attach component root).learn component) := by
  have hroot : root ∈ s.target.document.children p := h.stands.visited.subset (by simp)
  have hmoved : s.Proceeds rendering (s.attach component root) := .attach hl hrendering root
  refine ⟨?_, hmoved.trans (.learn hmoved.linked component), Registry.mem_known_learn _ _, ?_, ?_⟩
  all_goals rw [Session.attach_eq hc]
  · exact h.attached hheld held
  · exact Document.element?_attachedDocument he
  · rw [← Document.children_of_element? he]
    exact keepsBelow_attached h.stands.sound.tree hroot (fun n hn => (hheld n hn).1) held

theorem Returned.hosts {component : ComponentId} {held : Component} {rendering : List ComponentId}
    {rule : Key.MatchRule} {texts more : List NodeId} {called' : List (ComponentSpec × Option Nat)}
    {d : Document} (h : Returned rendering t p root (visited ++ texts) below e component s s')
    (hc : s.registry.component? component = some held) (htype : held.type = spec.type)
    (hkey : Key.isMatchingText key held.key = true)
    (haccepts : rule.accepts spec.name e.name rootKey e.key = true)
    (hassigned : e.assignAll inner.assigned = e)
    (hlead : s'.target.document.Settled rule lead.1 texts)
    (hinner : s.target.document.Hosts rule s.registry inner e.children called)
    (hk : s'.target.document.KeepsBelow (texts ++ [root]) d) (hg : s'.registry.Grows g)
    (hrest : d.Hosts rule g next more called') :
    d.Hosts rule g (.component spec key lead rootKey inner next) (texts ++ [root] ++ more)
      (called ++ [(spec, s'.index? component)] ++ called') := by
  obtain ⟨r, slot, hroot, hslot, rfl⟩ := h.root
  obtain ⟨c', hc', htype', hkey'⟩ := h.proceeds.grows.kept hc
  obtain ⟨c'', hc'', htype'', hkey''⟩ := hg.kept hc'
  have hchildren := hk.children (show root ∈ texts ++ [root] by simp)
  rw [Document.children_of_element? hroot] at hchildren
  have hfixed : Element.assignAll inner.assigned { e with record := r } =
      { e with record := r } := congrArg (fun e => { e with record := r }) hassigned
  rw [List.append_assoc, List.append_assoc, Session.index?_eq hc', ← hg.idxOf_known h.known]
  refine .component (hlead.congr (hk.mono (List.subset_append_left _ _)))
    ((hk.element? (by simp)).trans hroot) haccepts hfixed hslot hc'' ?_ ?_ (hg.mem_known h.known)
    ((hinner.congr h.inside (.refl _)).congr hchildren (h.proceeds.grows.trans hg)) hrest
  · rw [htype'', htype', htype]
  · rw [hkey'', hkey']
    exact hkey

theorem Stands.composesPlain (plan : Plan) (next : Composition)
    (h : s.target.Stands p visited below) (hl : Linked s.target.document s.registry) :
    ∃ ids s',
      ComposedUpTo ctx s p visited ids below plan.assigned (.plain plan next) next [] s' := by
  obtain ⟨ids, t₁, hruns, hadvances, hsettled⟩ := h.settles plan
  exact ⟨ids, ⟨t₁, s.registry⟩, .plain hruns, hadvances,
    .of_slotsWithin hl (slotsWithin_of_runs hruns),
    fun hk _ hrest => .plain (hsettled.congr hk) hrest⟩

theorem Stands.composesElement (name key : String) (next : Composition) (hinner : Composable inner)
    (h : s.target.Stands p visited below) (hl : Linked s.target.document s.registry)
    (ho : s.Outside ctx.rendering below) :
    ∃ ids called s',
      ComposedUpTo ctx s p visited ids below [] (.element name key inner next) next called s' := by
  obtain ⟨id, e, t₁, hopens⟩ := h.exists_opens name key
  have hopened : s.Proceeds ctx.rendering ⟨t₁, s.registry⟩ :=
    .of_slotsWithin hl (slotsWithin_apply (.openElement name key) hopens.opens)
  obtain ⟨ids, called, s₂, hinner⟩ := hinner (s := ⟨t₁, s.registry⟩) hopens.stands
    hopened.linked ((ho.proceed hopened h.sound.tree hopens.stands.sound.tree
      hopens.advances.edits.toGains).push _)
  obtain ⟨closed, t₃, hclose, hwithin, he, hhosts⟩ := hopens.closes hinner
  have hclosed : s₂.Proceeds ctx.rendering ⟨t₃, s₂.registry⟩ :=
    .of_slotsWithin hinner.proceeds.linked (slotsWithin_apply .closeElement hclose)
  refine ⟨[id], called, ⟨t₃, s₂.registry⟩, .element hopens.opens hinner.runs hclose, hwithin,
    hopened.trans (hinner.proceeds.trans hclosed), fun hk hg hrest => ?_⟩
  have hchildren := hk.children (List.mem_singleton_self id)
  rw [Document.children_of_element? he] at hchildren
  exact .element ((hk.element? (List.mem_singleton_self id)).trans he) hopens.accepted
    (Element.assignAll_assignAll inner.assigned e ids) (hhosts.congr hchildren hg) hrest

theorem Stands.composesComponent (spec : ComponentSpec) (key : String) (lead : Lead)
    (rootKey : String) (next : Composition) (hinner : Composable inner)
    (h : s.target.Stands p visited below) (hl : Linked s.target.document s.registry)
    (ho : s.Outside ctx.rendering below) :
    ∃ ids called s', ComposedUpTo ctx s p visited ids below lead.1.assigned
      (.component spec key lead rootKey inner next) next called s' := by
  have hsummoned := h.summons hl ho spec key
  generalize hfound : s.summon ctx spec key = found at hsummoned
  obtain ⟨id, g⟩ := found
  obtain ⟨component, hc, htype, hkey⟩ := hsummoned.fits
  obtain ⟨texts, t₁, hlead, hadvances, hsettled⟩ := h.settles lead.1
  have hrule : t₁.rule = s.target.rule := hadvances.pass.2
  obtain ⟨root, e, t₂, hopens⟩ := hadvances.stands.exists_opens spec.name rootKey
  obtain ⟨hbegun, hinside⟩ := hsummoned.opensRoot h ho hlead hadvances hopens
  have hcomposed : ∃ ids called s₃, Composed (ctx.enter id)
      ⟨t₂, g.update id Component.countRender⟩ root [] ids
      (⟨p, (visited ++ texts ++ [root]).length⟩ :: below) inner called s₃ :=
    hinner hopens.stands (hbegun []).linked hinside
  obtain ⟨ids, called, s₃, hinner⟩ := hcomposed
  obtain ⟨closed, t₄, hclose, hwithin, he, hhosts⟩ := hopens.closes hinner
  have htree₄ := hwithin.stands.sound.tree
  have hreturned : Session.Proceeds (id :: ctx.rendering) ⟨s.target, g⟩ ⟨t₄, s₃.registry⟩ :=
    (hbegun _).trans (hinner.proceeds.trans
      (.of_slotsWithin hinner.proceeds.linked (slotsWithin_apply .closeElement hclose)))
  obtain ⟨component', hc', htype', hkey'⟩ := hreturned.grows.kept hc
  -- The component moves to the root, from a child that was not visited if it was attached.
  have htexts := (hsettled.congr (hwithin.keeps.mono
    (List.subset_append_right visited texts))).element?_eq_none lead.2
  have hheld : ∀ n, Holds t₄.document n id →
      n ∈ t₄.document.children p ∧ n ∉ visited ++ texts := fun n hn =>
    hsummoned.held_later h htree₄ (hreturned.mono (by simp))
      (hadvances.edits.toGains.trans hwithin.edits.toGains) htexts hn
  have hattached := hwithin.returns (s := ⟨t₄, s₃.registry⟩) hreturned.linked hheld
    hsummoned.notRendering hc' he
  generalize hs₅ : ((⟨t₄, s₃.registry⟩ : Session KeyedDom).attach id root).learn id = s₅
    at hattached
  refine ⟨texts ++ [root], called ++ [(spec, s₅.index? id)], s₅, fun hrest => ?_, ?_,
    (hsummoned.proceeds _).trans ((hreturned.mono (by simp)).trans hattached.proceeds),
    fun hk hg hrest => ?_⟩
  · rw [List.append_assoc]
    exact .component hfound hsummoned.notRendering hlead hopens.opens hinner.runs hclose hs₅.symm
      hrest
  · have htrans := hadvances.trans hattached.advances
    rwa [List.append_nil] at htrans
  · have hkeeps := hattached.advances.keeps.mono (List.subset_append_right visited texts)
    exact hattached.hosts hc' (htype'.trans htype) (hkey' ▸ hkey) (hrule ▸ hopens.accepted)
      (Element.assignAll_assignAll inner.assigned e ids) (hsettled.congr hkeeps)
      (hrule ▸ hhosts) hk hg hrest

/-- Following a composition succeeds, and the nodes that were visited hold what was attached. -/
theorem composable (c : Composition) : Composable c := by
  induction c with
  | done =>
    intro ctx s p visited below h hl ho
    exact ⟨[], [], s, .done, .refl h, ⟨hl, .refl _, fun _ _ hs _ => hs⟩, .done⟩
  | plain plan next ih =>
    intro ctx s p visited below h hl ho
    obtain ⟨ids, s', hfirst⟩ := h.composesPlain plan next hl
    exact hfirst.exists_composed rfl h ho ih
  | element name key inner next ihinner ih =>
    intro ctx s p visited below h hl ho
    obtain ⟨ids, called, s', hfirst⟩ := h.composesElement name key next ihinner hl ho
    exact hfirst.exists_composed rfl h ho ih
  | component spec key lead rootKey inner next ihinner ih =>
    intro ctx s p visited below h hl ho
    obtain ⟨ids, called, s', hfirst⟩ :=
      h.composesComponent spec key lead rootKey next ihinner hl ho
    exact hfirst.exists_composed rfl h ho ih

end KeyedDom

end KeyedRender
