import KeyedRender.Proofs.Render.Quiet

/-!
# Conditions that rendering keeps

A family of conditions is stable if every call that a renderer makes keeps it, where opening an
element goes one level down in the family and closing goes one up. Under a layer no call reaches
the target, so that only the registry matters there. A constant family is kept by any script, and
one that counts levels by scripts that close what they open.
-/
namespace KeyedRender

open RenderTarget (apply document withDocument)

/-- A result that satisfies a condition, or a fault that is allowed. -/
def Allows {α : Type} (fault : Fault → Prop) (Q : α → Prop) : Except Fault α → Prop
  | .ok a => Q a
  | .error f => fault f

theorem Allows.of_ok {α : Type} {fault : Fault → Prop} {Q : α → Prop} {r : Except Fault α} {a : α}
    (h : r = .ok a) (hQ : Q a) : Allows fault Q r := h ▸ hQ

theorem Allows.of_ok_map {α β : Type} {fault : Fault → Prop} {Q : β → Prop} {r : Except Fault α}
    {a : α} {f : α → β} (h : r = .ok a) (hQ : Q (f a)) : Allows fault Q (r.map f) := by
  rw [h]
  exact hQ

theorem Allows.any {α : Type} (r : Except Fault α) : Allows (fun _ => True) (fun _ => True) r := by
  cases r <;> trivial

theorem Allows.mono {α : Type} {fault : Fault → Prop} {Q Q' : α → Prop} {r : Except Fault α}
    (h : Allows fault Q r) (hQ : ∀ a, Q a → Q' a) : Allows fault Q' r := by
  cases r with
  | ok a => exact hQ a h
  | error f => exact h

theorem Allows.bind {α β : Type} {fault : Fault → Prop} {Q : α → Prop} {Q' : β → Prop}
    {r : Except Fault α} {next : α → Except Fault β} (h : Allows fault Q r)
    (hn : ∀ a, Q a → Allows fault Q' (next a)) : Allows fault Q' (r >>= next) := by
  cases r with
  | ok a => exact hn a h
  | error f => exact h

theorem Allows.and {α : Type} {fault : Fault → Prop} {Q Q' : α → Prop} {r : Except Fault α}
    (h : Allows fault Q r) (h' : Allows fault Q' r) : Allows fault (fun a => Q a ∧ Q' a) r := by
  cases r with
  | ok a => exact ⟨h, h'⟩
  | error f => exact h

theorem Allows.map {α β : Type} {fault : Fault → Prop} {Q : α → Prop} {Q' : β → Prop}
    {r : Except Fault α} {f : α → β} (h : Allows fault Q r) (hf : ∀ a, Q a → Q' (f a)) :
    Allows fault Q' (r.map f) := by
  cases r with
  | ok a => exact hf a h
  | error f => exact h

theorem exists_ok_of_map {α β : Type} {r : Except Fault α} {f : α → β} {b : β}
    (h : r.map f = .ok b) : ∃ a, r = .ok a ∧ f a = b := by
  cases r with
  | error fault => cases h
  | ok a => exact ⟨a, rfl, Except.ok.inj h⟩

structure Registry.Extends (g g' : Registry) : Prop where
  size : g.components.size ≤ g'.components.size
  kept : ∀ {id c}, g.component? id = some c →
    ∃ c', g'.component? id = some c' ∧ c'.type = c.type ∧ c'.key = c.key ∧ c'.node = c.node

namespace Registry.Extends

variable {g g' g'' : Registry}

theorem refl (g : Registry) : g.Extends g := ⟨Nat.le_refl _, fun h => ⟨_, h, rfl, rfl, rfl⟩⟩

theorem trans (h : g.Extends g') (h' : g'.Extends g'') : g.Extends g'' := by
  refine ⟨Nat.le_trans h.size h'.size, fun hc => ?_⟩
  obtain ⟨c', hc', htype, hkey, hnode⟩ := h.kept hc
  obtain ⟨c'', hc'', htype', hkey', hnode'⟩ := h'.kept hc'
  exact ⟨c'', hc'', htype'.trans htype, hkey'.trans hkey, hnode'.trans hnode⟩

end Registry.Extends

namespace Registry

theorem lt_size_of_component? {g : Registry} {id : ComponentId} {c : Component}
    (h : g.component? id = some c) : id < g.components.size :=
  (Array.getElem?_eq_some_iff.1 h).1

theorem component?_update (g : Registry) (id other : ComponentId) (change : Component → Component) :
    (g.update id change).component? other =
      if id = other then (g.component? other).map change else g.component? other := by
  simp only [update, component?, Array.getElem?_modify]

theorem size_update (g : Registry) (id : ComponentId) (change : Component → Component) :
    (g.update id change).components.size = g.components.size := by
  simp [update]

theorem component?_create (g : Registry) (c : Component) (id : ComponentId) :
    (g.create c).2.component? id = if id = g.components.size then some c else g.component? id := by
  simp only [create, component?, Array.getElem?_push]

theorem extends_create (g : Registry) (c : Component) : g.Extends (g.create c).2 := by
  refine ⟨by simp [create], fun {id c'} h => ⟨c', ?_, rfl, rfl, rfl⟩⟩
  rw [component?_create, if_neg (Nat.ne_of_lt (lt_size_of_component? h)), h]

theorem extends_update (g : Registry) (id : ComponentId) {change : Component → Component}
    (h : ∀ c, (change c).type = c.type ∧ (change c).key = c.key ∧ (change c).node = c.node) :
    g.Extends (g.update id change) := by
  refine ⟨Nat.le_of_eq (size_update g id change).symm, fun {other c} hc => ?_⟩
  rw [component?_update, hc]
  split
  · exact ⟨change c, rfl, h c⟩
  · exact ⟨c, rfl, rfl, rfl, rfl⟩

theorem extends_countRender (g : Registry) (id : ComponentId) :
    g.Extends (g.update id Component.countRender) := g.extends_update id fun _ => ⟨rfl, rfl, rfl⟩

theorem extends_synchronize (g : Registry) (id : ComponentId) :
    g.Extends (g.update id Component.synchronize) :=
  g.extends_update id fun c => by unfold Component.synchronize; split <;> exact ⟨rfl, rfl, rfl⟩

theorem component?_learn (g : Registry) (id other : ComponentId) :
    (g.learn id).component? other = g.component? other := by
  unfold learn
  split <;> rfl

theorem extends_learn (g : Registry) (id : ComponentId) : g.Extends (g.learn id) := by
  refine ⟨?_, fun {other c} hc => ⟨c, ?_, rfl, rfl, rfl⟩⟩
  · unfold learn
    split <;> exact Nat.le_refl _
  · rw [component?_learn, hc]

end Registry

def attachedDocument (d : Document) (id : ComponentId) (c : Component) (root : NodeId) : Document :=
  let detached := RenderM.detach d id c.node root
  if RenderM.Holds detached root id then detached
  else detached.updateRecord root fun r => { r with slot := some ⟨c.type.tag, c.key, id⟩ }

def attachedRegistry (d : Document) (g : Registry) (id : ComponentId) (c : Component)
    (root : NodeId) : Registry :=
  if ((RenderM.detach d id c.node root).record? root).isSome then g.update id (.placeAt root) else g

theorem size_attachedRegistry (d : Document) (g : Registry) (id : ComponentId) (c : Component)
    (root : NodeId) : (attachedRegistry d g id c root).components.size = g.components.size := by
  unfold attachedRegistry
  split
  · exact g.size_update id _
  · rfl

def Instruction.call? : Instruction → Option TargetCall
  | .appendComment parent value => some (.appendComment parent value)
  | .setInnerMarkup node markup => some (.setInnerMarkup node markup)
  | .setComment node value => some (.setComment node value)
  | _ => none

def TargetCall.Assigns : TargetCall → Prop
  | .setAttribute _ _ => True
  | .setProperty _ _ => True
  | _ => False

def TargetCall.Stays : TargetCall → Prop
  | .skip => True
  | .skipNode => True
  | .applyAttributes => True
  | .applyStatics _ => True
  | .setComment _ _ => True
  | _ => False

def TargetCall.Fills : TargetCall → Prop
  | .setInnerMarkup _ _ => True
  | _ => False

def TargetCall.Restructures : TargetCall → Prop
  | .setAttribute _ _ => False
  | .setProperty _ _ => False
  | .applyStatics _ => False
  | .setInnerMarkup _ _ => False
  | _ => True

def TargetCall.IsInner : TargetCall → Prop
  | .beginPatch _ _ _ => False
  | _ => True

/-- What a family of conditions may rely on: the faults that are allowed, the direct steps that
are made, the components that can be attached and the nodes they can be attached to, and what is
true of an element that has just been opened. -/
structure Scope (τ : Type) where
  fault : Fault → Prop
  step : Instruction → Prop
  component : ComponentId → Prop
  node : NodeId → Prop
  fresh : τ → NodeId → Prop

def Scope.exits {τ : Type} (w : Scope τ) (n : Nat) (J : Nat → Condition τ) (L : Nat → Prop) :
    Exits τ :=
  ⟨w.fault, n, fun t g => ∃ k, L k ∧ J k t g⟩

structure Stable {τ : Type} [RenderTarget τ] (w : Scope τ) (n : Nat) (J : Nat → Condition τ) :
    Prop where
  reentered : ∀ id, w.fault (.reentered id)
  grows : ∀ {k t g g'}, J k t g → g.Extends g' → J k t g'
  created : ∀ {k t g}, J k t g → w.component g.components.size
  opened : n = 0 → ∀ {k t g} name key, J k t g →
    Allows w.fault (fun r => J (k + 1) r.2 g ∧
      ∀ node, r.1 = some node → w.fresh r.2 node ∧ w.node node) (apply (.openElement name key) t)
  closed : n = 0 → ∀ {k t g}, J (k + 1) t g →
    Allows w.fault (fun r => J k r.2 g) (apply .closeElement t)
  wrote : n = 0 → ∀ {k t g} value, J k t g →
    Allows w.fault (fun r => J k r.2 g ∧ ∀ node, r.1 = some node → w.node node)
      (apply (.text value) t)
  assigned : n = 0 → ∀ {k t g call}, call.Assigns → J k t g →
    Allows w.fault (fun r => J k r.2 g ∧ ∀ node, w.fresh t node → w.fresh r.2 node) (apply call t)
  stayed : n = 0 → ∀ {k t g call}, call.Stays → J k t g →
    Allows w.fault (fun r => J k r.2 g) (apply call t)
  appended : n = 0 → ∀ {k t g node} value, J k t g → RenderTarget.current? t = some node →
    Allows w.fault (fun r => J k r.2 g) (apply (.appendComment node value) t)
  filled : n = 0 → ∀ {k t g node} markup, J k t g → w.fresh t node →
    Allows w.fault (fun r => J k r.2 g ∧ w.fresh r.2 node) (apply (.setInnerMarkup node markup) t)
  recorded : n = 0 → ∀ {k t g node change}, J k t g → w.fresh t node →
    (∀ r : NodeRecord, (change r).slot = r.slot) →
    J k (withDocument t ((document t).updateRecord node change)) g
  described : n = 0 → ∀ {k t g node}, J k t g → w.fresh t node →
    Allows w.fault (fun _ => True) (RenderTarget.hasContent t node) ∧
    Allows w.fault (fun _ => True) (RenderTarget.describe t node)
  found : n = 0 → ∀ {k t g type key id}, J k t g →
    RenderM.findAttached? (document t) g type key
      ((document t).siblingsFrom (RenderTarget.pointer? t)) = some id → w.component id
  attached : n = 0 → ∀ {k t g id root c}, J k t g → w.component id → w.node root →
    g.component? id = some c → J k (withDocument t (attachedDocument (document t) id c root))
      (attachedRegistry (document t) g id c root)
  direct : n = 0 → ∀ {k t g instruction call}, J k t g → instruction.call? = some call →
    w.step instruction → Allows w.fault (fun r => J k r.2 g) (apply call t)
  inspected : n = 0 → ∀ {k t g node}, J k t g → w.step (.inspect node) →
    Allows w.fault (fun _ => True) (RenderM.inspectTarget t node)

/-- The level inside an element that was opened, which a layer hides. -/
def inside (n k : Nat) : Nat := if n = 0 then k + 1 else k

theorem inside_of_ne_zero {n : Nat} (h : n ≠ 0) (k : Nat) : inside n k = k := if_neg h

theorem Renderer.layers_of_kind {τ : Type} {r : Renderer τ} (h : r.kind = .default) :
    r.layers.length = 0 := by
  unfold Renderer.kind at h
  split at h
  · next hr => rw [hr]; rfl
  · cases h
  · cases h

theorem Renderer.layers_of_kind_ne {τ : Type} {r : Renderer τ} (h : r.kind ≠ .default) :
    r.layers.length ≠ 0 := by
  intro hl
  exact h (by rw [Renderer.kind, List.eq_nil_of_length_eq_zero hl])

theorem Renderer.target?_eq_some_iff {τ : Type} {r : Renderer τ} {t : τ} :
    r.target? = some t ↔ r.layers.length = 0 ∧ r.pass.target = t := by
  cases hr : r.layers <;> simp [Renderer.target?, hr]

section

variable {τ : Type} [RenderTarget τ] {x : Exits τ} {P : Condition τ}

namespace Triple

theorem callTarget {call : TargetCall} {Q : Option NodeId → Condition τ}
    (h : ∀ t g, P t g → Allows x.fault (fun r => Q r.1 r.2 g) (apply call t)) :
    Triple x P (RenderM.callTarget call) Q := by
  intro ctx s hl hp
  have h := h _ _ hp
  unfold RenderM.callTarget
  split
  · next f hf => rwa [hf] at h
  · next node target ht =>
    rw [ht] at h
    exact ⟨hl, h⟩

theorem emit? {call : TargetCall} {Q : Option NodeId → Condition τ}
    (h : x.layers = 0 → ∀ t g, P t g → Allows x.fault (fun r => Q r.1 r.2 g) (apply call t))
    (hn : x.layers ≠ 0 → ∀ t g, P t g → Q none t g) : Triple x P (RenderM.emit? call) Q := by
  refine bind_renderer fun r hr => ?_
  have covered : r.kind ≠ .default → ∀ t g, t = r.pass.target ∧ P t g → Q none t g :=
    fun hk t g hp => hn (hr ▸ Renderer.layers_of_kind_ne hk) t g hp.2
  split
  · next hk =>
    have hzero : x.layers = 0 := hr ▸ Renderer.layers_of_kind hk
    exact callTarget fun t g hp => h hzero t g hp.2
  · next hk => exact pure (covered (by rw [hk]; decide))
  · next hk =>
    exact bind (changeRenderer Renderer.length_layers_markRendered fun _ => by simp) fun _ =>
      pure (covered (by rw [hk]; decide))

theorem emit {call : TargetCall} {Q : Condition τ}
    (h : x.layers = 0 → ∀ t g, P t g → Allows x.fault (fun r => Q r.2 g) (apply call t))
    (hn : x.layers ≠ 0 → ∀ t g, P t g → Q t g) : Triple x P (RenderM.emit call) fun _ => Q :=
  bind (emit? h hn) fun _ => pure fun _ _ hq => hq

omit [RenderTarget τ] in
theorem readTarget {α : Type} {read : τ → Except Fault α}
    (h : ∀ t g, P t g → Allows x.fault (fun _ => True) (read t)) :
    Triple x P (RenderM.readTarget read) fun _ => P := by
  refine bind_renderer fun r _ => ?_
  intro ctx s hl hp
  have hr := h _ _ hp.2
  rw [hp.1] at hr
  cases hread : read r.pass.target with
  | ok a => exact ⟨hl, hp.2⟩
  | error f => rwa [hread] at hr

section Synchronized

omit [RenderTarget τ]
variable (hre : ∀ id, x.fault (.reentered id))
  (hgrow : ∀ t (g g' : Registry), P t g → g.Extends g' → P t g')
include hre hgrow

theorem synchronizeAll (ids : List ComponentId) :
    Triple x P (RenderM.synchronizeAll ids) fun _ => P := by
  induction ids with
  | nil => exact pure fun _ _ hp => hp
  | cons id rest ih =>
    refine bind context fun ctx => breakIf (hre id) ?_
    exact bind (changeRegistry fun t g hp => hgrow t g _ hp (g.extends_synchronize id)) fun _ =>
      bind log fun _ => ih

theorem flushQueue : Triple x P RenderM.flushQueue fun _ => P := by
  refine bind_renderer fun r _ => ?_
  refine bind (changeRenderer (fun _ => rfl) fun _ => rfl) fun _ => ?_
  exact (synchronizeAll hre hgrow _).pre fun _ _ hp => hp.2

end Synchronized

end Triple

end

namespace Stable

variable {τ : Type} [RenderTarget τ] {w : Scope τ} {n k : Nat} {J : Nat → Condition τ}
  {L : Nat → Prop}

theorem above (h : Stable w n J) {m : Nat} (hm : m ≠ 0) (k : Nat) : Stable w m fun _ => J k where
  reentered := h.reentered
  grows := h.grows
  created := h.created
  opened hm' := absurd hm' hm
  closed hm' := absurd hm' hm
  wrote hm' := absurd hm' hm
  assigned hm' := absurd hm' hm
  stayed hm' := absurd hm' hm
  appended hm' := absurd hm' hm
  filled hm' := absurd hm' hm
  recorded hm' := absurd hm' hm
  described hm' := absurd hm' hm
  found hm' := absurd hm' hm
  attached hm' := absurd hm' hm
  direct hm' := absurd hm' hm
  inspected hm' := absurd hm' hm

theorem levels {I : Condition τ} (h : Stable w 0 fun _ => I) (n : Nat) : Stable w n fun _ => I := by
  by_cases hn : n = 0
  · exact hn ▸ h
  · exact h.above hn 0

omit [RenderTarget τ] in
theorem failed {t : τ} {g : Registry} (hk : L k) (hp : J k t g) : (w.exits n J L).failed t g :=
  ⟨k, hk, hp⟩

omit [RenderTarget τ] in
theorem quiet {α : Type} {m : RenderM τ α} (h : Quiet m) :
    Triple (w.exits n J L) (J k) m fun _ => J k := h.triple

theorem openElement (h : Stable w n J) (name key : String) :
    Triple (w.exits n J L) (J k) (RenderM.openElement name key) fun a t g => J (inside n k) t g ∧
      ∀ node, a = some node → n = 0 ∧ w.fresh t node ∧ w.node node := by
  refine .bind_renderer fun r _ => .emit? (fun hn t g hp => ?_) fun hn t g hp => ⟨?_, by simp⟩
  · refine (h.opened hn name _ hp.2).mono fun r hr => ⟨?_, fun node ha => ⟨hn, hr.2 node ha⟩⟩
    rw [show n = 0 from hn]
    exact hr.1
  · rw [inside_of_ne_zero (show n ≠ 0 from hn)]
    exact hp.2

theorem closeElement (h : Stable w n J) :
    Triple (w.exits n J L) (J (inside n k)) RenderM.closeElement fun _ => J k := by
  refine .emit? (fun hn t g hp => ?_) fun hn t g hp => ?_
  · rw [show n = 0 from hn] at hp
    exact h.closed hn hp
  · rwa [inside_of_ne_zero (show n ≠ 0 from hn)] at hp

theorem emitClose (h : Stable w n J) :
    Triple (w.exits n J L) (J (inside n k)) (RenderM.emit .closeElement) fun _ => J k :=
  .bind h.closeElement fun _ => .pure fun _ _ hp => hp

theorem text (h : Stable w n J) (value : String) :
    Triple (w.exits n J L) (J k) (RenderM.text value) fun a t g => J k t g ∧
      ∀ node, a = some node → w.node node :=
  .emit? (fun hn _ _ hp => h.wrote hn value hp) fun _ _ _ hp => ⟨hp, by simp⟩

theorem stays (h : Stable w n J) (call : TargetCall) (hc : call.Stays) :
    Triple (w.exits n J L) (J k) (RenderM.emit call) fun _ => J k :=
  .emit (fun hn _ _ hp => h.stayed hn hc hp) fun _ _ _ hp => hp

theorem assigns (h : Stable w n J) (call : TargetCall) (hc : call.Assigns) (p : NodeId → Prop) :
    Triple (w.exits n J L) (fun t g => J k t g ∧ ∀ node, p node → w.fresh t node)
      (RenderM.emit call) fun _ t g => J k t g ∧ ∀ node, p node → w.fresh t node :=
  .emit (fun hn _ _ hp => (h.assigned hn hc hp.1).mono fun _ hr =>
    ⟨hr.1, fun node hnode => hr.2 node (hp.2 node hnode)⟩) fun _ _ _ hp => hp

theorem setAttribute_fresh (h : Stable w n J) (name value : String) (p : NodeId → Prop) :
    Triple (w.exits n J L) (fun t g => J k t g ∧ ∀ node, p node → w.fresh t node)
      (RenderM.setAttribute name value) fun _ t g => J k t g ∧ ∀ node, p node → w.fresh t node := by
  refine .bind (h.assigns (.setAttribute name value) trivial p) fun _ => ?_
  split
  · exact h.assigns (.setProperty _ _) trivial p
  · split
    · exact h.assigns (.setProperty _ _) trivial p
    · exact .pure fun _ _ hp => hp

theorem stampKey (h : Stable w n J) (key : String) (p : NodeId → Prop) :
    Triple (w.exits n J L) (fun t g => J k t g ∧ ∀ node, p node → w.fresh t node)
      (RenderM.stampKey key) fun _ t g => J k t g ∧ ∀ node, p node → w.fresh t node := by
  refine .bind .context fun ctx => ?_
  split
  · exact h.setAttribute_fresh _ key p
  · exact .pure fun _ _ hp => hp

theorem setAttribute (h : Stable w n J) (name value : String) :
    Triple (w.exits n J L) (J k) (RenderM.setAttribute name value) fun _ => J k := by
  have hfresh := h.setAttribute_fresh (L := L) (k := k) name value fun _ => False
  exact (hfresh.pre fun _ _ hp => ⟨hp, fun _ => False.elim⟩).post fun _ _ _ hp => hp.1

theorem changeRecord (h : Stable w n J) (hn : n = 0) {node : NodeId}
    {change : NodeRecord → NodeRecord} (hc : ∀ r, (change r).slot = r.slot) :
    Triple (w.exits n J L) (fun t g => J k t g ∧ w.fresh t node) (RenderM.changeRecord node change)
      fun _ => J k :=
  fun _ _ hl hp => ⟨hl, h.recorded hn hp.1 hp.2 hc⟩

theorem verifySkipParameters (h : Stable w n J) (hn : n = 0) (hk : L k) (node : NodeId)
    (parameters : Payload) :
    Triple (w.exits n J L) (fun t g => J k t g ∧ w.fresh t node)
      (RenderM.verifySkipParameters node parameters) fun _ => J k := by
  have failed : ∀ t g, J k t g ∧ w.fresh t node → (w.exits n J L).failed t g :=
    fun _ _ hp => ⟨k, hk, hp.1⟩
  refine .bind Quiet.targetDocument.triple fun d => ?_
  split
  · exact .pure fun _ _ hp => hp.1
  · split
    · exact h.changeRecord hn fun _ => rfl
    · split
      · refine .bind (.readTarget fun t g hp => (h.described hn hp.1 hp.2).2) fun _ => ?_
        exact .fail failed
      · exact .pure fun _ _ hp => hp.1

theorem openServerElement (h : Stable w n J) (hk : L (inside n k)) (name key : String)
    (parameters : Option Payload) :
    Triple (w.exits n J L) (J k) (RenderM.openServerElement name key parameters) fun renders =>
      J (if renders then inside n k else k) := by
  refine .bind_renderer fun r hr => ?_
  have hr : r.layers.length = n := hr
  cases hkind : r.kind with
  | muted =>
    have hn : n ≠ 0 := hr ▸ Renderer.layers_of_kind_ne (by rw [hkind]; decide)
    exact .pure fun _ _ hp => by simpa [inside_of_ne_zero hn] using hp.2
  | probe =>
    refine .bind Quiet.markRendered.triple fun _ => ?_
    exact .pure fun _ _ hp => hp.2
  | default =>
    have hn : n = 0 := hr ▸ Renderer.layers_of_kind hkind
    subst hn
    have open_ : Triple (w.exits 0 J L) (fun t g => t = r.pass.target ∧ J k t g)
        (RenderM.callTarget (.openElement name key)) fun a t g => J (k + 1) t g ∧
          ∀ node, a = some node → w.fresh t node ∧ w.node node :=
      .callTarget fun t g hp => h.opened rfl name key hp.2
    refine .bind open_ fun opened => ?_
    have fresh : ∀ t g,
        (J (k + 1) t g ∧ ∀ node, opened = some node → w.fresh t node ∧ w.node node) →
        J (k + 1) t g ∧ ∀ node, opened = some node → w.fresh t node :=
      fun t g hp => ⟨hp.1, fun node hnode => (hp.2 node hnode).1⟩
    refine .bind ((h.stampKey key _).pre fresh) fun _ => ?_
    split
    · exact .pure fun _ _ hp => hp.1
    · next node =>
      refine .bind (.readTarget fun t g hp => (h.described rfl hp.1 (hp.2 node rfl)).1)
        fun content => ?_
      cases content with
      | false => exact .pure fun _ _ hp => hp.1
      | true =>
        have close : Triple (w.exits 0 J L) (J (k + 1)) (do
            RenderM.emit .skip
            RenderM.emit .closeElement
            return false) fun renders => J (if renders then inside 0 k else k) :=
          .bind (h.stays .skip trivial) fun _ => .bind h.emitClose fun _ => .pure fun _ _ hp => hp
        simp only [if_true]
        split
        · next supplied _ =>
          exact .bind ((h.verifySkipParameters rfl hk node supplied).pre
            fun _ _ hp => ⟨hp.1, hp.2 node rfl⟩) fun _ => close
        · exact close.pre fun _ _ hp => hp.1

theorem maybeSkip (h : Stable w n J) (skip : Bool) :
    Triple (w.exits n J L) (J (if skip then inside n k else k)) (RenderM.maybeSkip skip)
      fun _ => J k := by
  have level : n ≠ 0 → (if skip then inside n k else k) = k := fun hn => by
    rw [inside_of_ne_zero hn, ite_self]
  refine .bind_renderer fun r hr => ?_
  have hr : r.layers.length = n := hr
  cases hk : r.kind with
  | muted =>
    have hn : n ≠ 0 := hr ▸ Renderer.layers_of_kind_ne (by rw [hk]; decide)
    rw [level hn]
    exact .pure fun _ _ hp => hp.2
  | probe =>
    have hn : n ≠ 0 := hr ▸ Renderer.layers_of_kind_ne (by rw [hk]; decide)
    rw [level hn]
    refine .bind Quiet.markRendered.triple fun _ => ?_
    exact .pure fun _ _ hp => hp.2
  | default =>
    cases skip with
    | false => exact .bind (.pure fun _ _ hp => hp.2) fun _ => .pure fun _ _ hp => hp
    | true =>
      simp only [if_true]
      refine .bind ((h.stays .skip trivial).pre fun _ _ hp => hp.2) fun _ => ?_
      exact .bind h.emitClose fun _ => .pure fun _ _ hp => hp

omit [RenderTarget τ] in
theorem layered {α : Type} {m : RenderM τ α} (layer : Layer)
    (hm : Triple ⟨w.fault, n + 1, J k⟩ (J k) m fun _ => J k) :
    Triple (w.exits n J L) (J k) (RenderM.layered layer m) fun _ => J k := by
  refine (Triple.layered hm).post fun result t g hp => ?_
  rcases result with ⟨_ | _, rendered⟩ <;> exact hp

omit [RenderTarget τ] in
theorem resume {α : Type} (hk : L k) (result : Except RenderError α) :
    Triple (w.exits n J L) (J k) (RenderM.resume result) fun _ => J k := by
  cases result with
  | ok a => exact .pure fun _ _ hp => hp
  | error e => exact .fail fun _ _ hp => failed hk hp

omit [RenderTarget τ] in
theorem shielded {α : Type} {m : RenderM τ α} (hk : L k)
    (hm : Triple ⟨w.fault, n + 1, J k⟩ (J k) m fun _ => J k) :
    Triple (w.exits n J L) (J k) (RenderM.shielded m) fun _ => J k :=
  .bind (quiet Quiet.logger?) fun _ => .bind (layered _ hm) fun r => resume hk r.1

omit [RenderTarget τ] in
theorem muted {α : Type} {m : RenderM τ α} (hk : L k)
    (hm : ∀ m' : Nat, m' ≠ 0 → Triple ⟨w.fault, m', J k⟩ (J k) m fun _ => J k) :
    Triple (w.exits n J L) (J k) (RenderM.muted m) fun _ => J k := by
  refine .bind_renderer fun r hr => ?_
  have hr : r.layers.length = n := hr
  cases hkind : r.kind with
  | default => exact (shielded hk (hm _ (Nat.succ_ne_zero n))).pre fun _ _ hp => hp.2
  | muted => exact .fail fun _ _ hp => failed hk hp.2
  | probe =>
    have hn : n ≠ 0 := hr ▸ Renderer.layers_of_kind_ne (by rw [hkind]; decide)
    exact ((hm n hn).failing (x := w.exits n J L) fun _ _ hp => failed hk hp).pre fun _ _ hp => hp.2

omit [RenderTarget τ] in
theorem probe {m : RenderM τ Unit} (hk : L k)
    (hm : Triple ⟨w.fault, n + 1, J k⟩ (J k) m fun _ => J k) :
    Triple (w.exits n J L) (J k) (RenderM.probe m) fun _ => J k :=
  .bind (layered _ hm) fun r => .bind (resume hk r.1) fun _ => .pure fun _ _ hp => hp

omit [RenderTarget τ] in
theorem verifyLogOnly (hk : L k) (logOnly : Bool) :
    Triple (w.exits n J L) (J k) (RenderM.verifyLogOnly logOnly) fun _ => J k := by
  refine .bind_renderer fun r _ => ?_
  split
  · exact .fail fun _ _ hp => failed hk hp.2
  · split
    · exact .fail fun _ _ hp => failed hk hp.2
    · exact .pure fun _ _ hp => hp.2

omit [RenderTarget τ] in
theorem toDefault (hk : L k) : Triple (w.exits n J L) (J k) RenderM.toDefault fun _ => J k := by
  refine .bind_renderer fun r _ => ?_
  split
  · exact .fail fun _ _ hp => failed hk hp.2
  · exact Quiet.handBackLogger.triple.pre fun _ _ hp => hp.2
  · exact .pure fun _ _ hp => hp.2

theorem changeRegistry (h : Stable w n J) {change : Registry → Registry}
    (hc : ∀ g : Registry, g.Extends (change g)) :
    Triple (w.exits n J L) (J k) (RenderM.changeRegistry change) fun _ => J k :=
  .changeRegistry fun _ g hp => h.grows hp (hc g)

end Stable

end KeyedRender
