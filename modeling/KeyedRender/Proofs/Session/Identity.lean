import KeyedRender.Proofs.Session.Attachment
import KeyedRender.Proofs.Session.Tree
import KeyedRender.Proofs.Target.Row

/-!
# Components from pass to pass

Passes that call components of one type below a root keep them apart by the fragments they are
called with. In each pass a component is the one that was called with the same fragment in the
pass before, in whatever order they come, and the seats of the components follow the order of the
calls.
-/
namespace KeyedRender

open KeyedDom (Calls Placed)

variable {F : Family} {root : NodeId} {done left : List Visit} {ctx : Context}
  {s u : RenderState KeyedDom}

structure RenderState.Shelved (F : Family) (root : NodeId) (done left : List Visit)
    (s : RenderState KeyedDom) : Prop where
  layers : s.renderer.layers.length = 0
  shelf : s.renderer.pass.target.Shelf F root done left s.shared.registry

theorem Triple.introduce {τ : Type} {x : Exits τ} {P : Condition τ}
    (hgrows : ∀ t g g', P t g → g.Extends g' → P t g') (id : ComponentId) :
    Triple x P (RenderM.introduce id) fun _ => P := by
  have hlearn : Triple x P (RenderM.changeRegistry (·.learn id)) fun _ => P :=
    .changeRegistry fun t g hp => hgrows t g _ hp (g.extends_learn id)
  exact .bind hlearn fun _ => .bind Quiet.state.triple fun _ => .pure fun _ _ hp => hp

namespace RenderState.Shelved

theorem grown (h : s.Shelved F root done left) {α : Type} {m : RenderM KeyedDom α} {a : α}
    (hm : ∀ P : Condition KeyedDom, (∀ t g g', P t g → g.Extends g' → P t g') →
      Triple ⟨fun _ => True, 0, P⟩ P m fun _ => P) (hu : m ctx s = .done a u) :
    u.Shelved F root done left ∧ u.renderer.pass.target = s.renderer.pass.target ∧
      s.shared.registry.Extends u.shared.registry := by
  obtain ⟨hlayers, htarget, hextends⟩ := (hm (fun t g => t = s.renderer.pass.target ∧
    s.shared.registry.Extends g) fun _ _ _ hp he => ⟨hp.1, hp.2.trans he⟩).done h.layers
    ⟨rfl, .refl _⟩ hu
  refine ⟨⟨hlayers, ?_⟩, htarget, hextends⟩
  rw [htarget]
  exact h.shelf.grows hextends

theorem rendered {body : Script} (hbody : body.Tidy (fun _ => True) 0) {s₃ s₄ : RenderState KeyedDom}
    (hrun : body.run KeyedDom ctx u = .done () s₃)
    (hclose : RenderM.emit .closeElement ctx s₃ = .done () s₄)
    (hl : u.renderer.layers.length = 0) {c : Enclosure} (hproper : c.Proper)
    (he : u.renderer.pass.target.Enclosed c 0 u.shared.registry) {f : Frame}
    (hbelow : c.below = [f]) :
    s₄.renderer.layers.length = 0 ∧ s₄.renderer.pass.target.Kept c s₄.shared.registry ∧
      s₄.renderer.pass.target.frames = [f] := by
  have htidy := (KeyedDom.stable_enclosed hproper).tidy (k := 0) (L := fun _ => True) (fun _ hi => hi)
    hbody fun _ hd => hd
  rw [within_zero] at htidy
  obtain ⟨hlayers, hinside⟩ := htidy.done hl he hrun
  have hend : Triple ⟨fun _ => True, 0, fun _ _ => True⟩ (KeyedDom.Enclosed c 0)
      (RenderM.emit .closeElement) fun _ (t : KeyedDom) g => t.Kept c g ∧ t.frames = [f] := by
    refine .emit (Q := fun (t : KeyedDom) g => t.Kept c g ∧ t.frames = [f]) (fun _ t g hp => ?_)
      fun hn => absurd rfl hn
    obtain ⟨node, t', ht', hkept, hframes⟩ := hp.closed hbelow
    exact .of_ok ht' ⟨hkept, hframes.trans hbelow⟩
  exact hend.done hlayers hinside hclose

theorem renderInstance (h : s.Shelved F root done left) {spec : ComponentSpec}
    {before body : Script} (hfits : F.Fits spec before body)
    (hkey : s.renderer.currentKey = F.stack) (hused : spec.first.identity ∈ F.used)
    (hdone : ∀ w ∈ done, w.identity ≠ spec.first.identity) {id : ComponentId}
    (hcalls : Calls F left spec.first id s.renderer.pass.target.document s.shared.registry)
    {r : Option ComponentId}
    (hrun : RenderM.renderInstance id spec (before.run KeyedDom) (body.run KeyedDom) ctx s =
      .done r u) (count : Nat) :
    ∃ n, u.Shelved F root (done ++ [⟨spec.first, count, id, n⟩]) (others spec.first.identity left) ∧
      s.shared.registry.Keeps u.shared.registry := by
  obtain ⟨-, inner, s₁, s₂, s₃, s₄, opened, hbefore, hopen, hbody, hclose, hattach⟩ :=
    RenderM.renderInstance_eq_done hfits.root hrun
  have hcount := s.shared.registry.extends_countRender id
  have hentered : RenderState.Shelved F root done left ⟨s.renderer.enqueue id, { s.shared with
      registry := s.shared.registry.update id Component.countRender }⟩ := by
    refine ⟨by rw [Renderer.layers_enqueue, h.layers], ?_⟩
    rw [Renderer.target_enqueue]
    exact h.shelf.grows hcount
  -- Up to its root the rendering leaves the shelf as it is.
  obtain ⟨h₁, htarget₁, hextends₁⟩ := hentered.grown (fun _ _ => hfits.silent.triple) hbefore
  have htarget : s₁.renderer.pass.target = s.renderer.pass.target := by
    rw [htarget₁, Renderer.target_enqueue]
  have hkey₁ : s₁.renderer.currentKey = F.stack := by
    rw [hfits.keepsKey _ _ _ hbefore, Renderer.currentKey_enqueue, hkey]
  have hcalls₁ : Calls F left spec.first id s₁.renderer.pass.target.document s₁.shared.registry := by
    rw [htarget]
    exact hcalls.grows (hcount.trans hextends₁)
  obtain ⟨n, t', ht', ho⟩ := h₁.shelf.openElement hused
  have happly : RenderTarget.apply
      (.openElement spec.name (Key.encode (.text spec.key) ++ s₁.renderer.currentKey))
      s₁.renderer.pass.target = .ok (some n, t') := by
    rw [hfits.name, hfits.key, hkey₁]
    exact ht'
  obtain ⟨log, hlog⟩ := RenderM.callTarget_run inner happly
  rw [RenderM.openElement_run h₁.layers, hlog] at hopen
  cases hopen
  have hslots := KeyedDom.slotsWithin_apply (.openElement _ _) ht'
  -- From here to the end of the element, all that is rendered happens inside the new seat.
  obtain ⟨hproper, henclosed⟩ := ho.enclosed (v := ⟨spec.first, count, id, n⟩) h₁.shelf hcalls₁ hslots
  obtain ⟨hlayers₄, hkept, hframes⟩ := rendered hfits.tidy hbody hclose h₁.layers hproper
    henclosed rfl
  obtain ⟨c, hc, -⟩ := hcalls₁.component
  obtain ⟨c', hc', -⟩ := hkept.keeps.kept hc
  have hattached := hattach n rfl
  rw [Stable.attach_run hlayers₄ hc'] at hattached
  cases hattached
  have hplaced := ho.placed (v := ⟨spec.first, count, id, n⟩) h₁.shelf hcalls₁
  refine ⟨n, ⟨hlayers₄, ?_⟩, ?_⟩
  · exact h₁.shelf.visited hplaced ho hused hdone ⟨rfl, rfl, rfl, rfl⟩ hkept hframes hc'
  · exact (Registry.Keeps.of_extends (hcount.trans hextends₁)).trans
      (hkept.keeps.trans (.attached ..))

theorem findComponent? (h : s.Shelved F root done left) (first : Key.Fragment) :
    RenderM.findComponent? F.type (Key.encode first ++ F.stack) ctx s =
      .done ((left.find? fun w => w.identity = first.identity).map Visit.component) s := by
  have hsiblings : (RenderTarget.document s.renderer.pass.target).siblingsFrom
      (RenderTarget.pointer? s.renderer.pass.target) = left.map Visit.node := h.shelf.siblings
  rw [RenderM.findComponent?_run h.layers, hsiblings]
  exact congrArg (Outcome.done · s) (Seated.findAttached?_eq
    (fun v hv => h.shelf.seated v (List.mem_append_right _ hv)) first)

theorem renderComponent (h : s.Shelved F root done left) {spec : ComponentSpec}
    {before body : Script} (hfits : F.Fits spec before body)
    (hkey : s.renderer.currentKey = F.stack) (hused : spec.first.identity ∈ F.used)
    (hdone : ∀ w ∈ done, w.identity ≠ spec.first.identity) {id : ComponentId}
    (hrun : RenderM.renderComponent spec (before.run KeyedDom) (body.run KeyedDom) ctx s =
      .done (some id) u) :
    u.Shelved F root (done ++ [⟨spec.first, s.shared.registry.components.size, id,
      u.shared.registry.nodeOf id⟩]) (others spec.first.identity left) ∧
    s.shared.registry.components.size ≤ u.shared.registry.components.size ∧
    (∀ w, left.find? (fun w => w.identity = spec.first.identity) = some w → id = w.component) ∧
    (left.find? (fun w => w.identity = spec.first.identity) = none →
      id = s.shared.registry.components.size) := by
  obtain ⟨g, hinstance, hfound⟩ := RenderM.renderComponent_eq_done h.layers hfits.root hrun
  rw [hfits.type, hkey, h.findComponent?] at hfound
  -- The call goes on from a state in which its component is there, found or created.
  have hstart : s.shared.registry.Extends g ∧
      Calls F left spec.first id s.renderer.pass.target.document g ∧
      (left.find? (fun w => w.identity = spec.first.identity) = none →
        id = s.shared.registry.components.size) := by
    rcases hfound with ⟨hsome, rfl⟩ | ⟨hnone, rfl, label, rfl⟩
    · obtain ⟨w, hw, rfl⟩ := Option.map_eq_some_iff.1 (Outcome.done.inj hsome).1
      refine ⟨.refl _, h.shelf.calls_left hw, fun hnone => ?_⟩
      rw [hw] at hnone
      cases hnone
    · have hnone := Option.map_eq_none_iff.1 (Outcome.done.inj hnone).1
      exact ⟨Registry.extends_create _ _, h.shelf.calls_new hnone label, fun _ => rfl⟩
  obtain ⟨hextends, hcalls, hnew⟩ := hstart
  have hentered : RenderState.Shelved F root done left
      { s with shared := { s.shared with registry := g } } := ⟨h.layers, h.shelf.grows hextends⟩
  obtain ⟨n, hshelved, hkeeps⟩ := hentered.renderInstance hfits hkey hused hdone hcalls hinstance
    s.shared.registry.components.size
  have hseated := hshelved.shelf.seated _ (List.mem_append_left _ (List.mem_append_right _
    (List.mem_singleton_self _)))
  have hn : u.shared.registry.nodeOf id = n := by
    rw [Registry.nodeOf, hseated.node_eq hshelved.shelf.linked]
    rfl
  rw [hn]
  exact ⟨hshelved, Nat.le_trans hextends.size hkeeps.size, fun w hw => (hcalls.found w hw).symm, hnew⟩

end RenderState.Shelved

structure Visit.Continues (past : List Visit) (existing : Nat) (v : Visit) : Prop where
  same : ∀ w ∈ past, w.identity = v.identity → v.component = w.component
  new : (∀ w ∈ past, w.identity ≠ v.identity) → v.component = v.count
  later : existing ≤ v.count

theorem RenderState.Shelved.visits {script : Script} {visits : List Visit}
    (h : s.Shelved F root done left) (hcalls : script.Calls F)
    (hv : script.visits? F.stack ctx s = some (visits, u))
    (hdistinct : ((done ++ visits).map Visit.identity).Nodup)
    (hused : ∀ v ∈ visits, v.identity ∈ F.used) :
    ∃ left', u.Shelved F root (done ++ visits) left' ∧
      s.shared.registry.components.size ≤ u.shared.registry.components.size ∧
      ∀ v ∈ visits, v.Continues left s.shared.registry.components.size := by
  induction script generalizing s done left visits with
  | done =>
    cases hv
    exact ⟨left, by simpa using h, Nat.le_refl _, by simp⟩
  | block b body next => exact hcalls.elim
  | step i next ih =>
    obtain ⟨t, hstep, hnext⟩ := Script.visits?_step hv
    obtain ⟨h', -, hextends⟩ := h.grown (fun _ _ => .bind hcalls.1.triple fun a =>
      (Quiet.answer _ a).triple) hstep
    obtain ⟨left', hend, hsize, hcontinues⟩ := ih h' hcalls.2 hnext hdistinct hused
    refine ⟨left', hend, Nat.le_trans hextends.size hsize, fun v hv => ?_⟩
    have hv := hcontinues v hv
    exact ⟨hv.same, hv.new, Nat.le_trans hextends.size hv.later⟩
  | component spec before body next _ _ ih =>
    obtain ⟨hkey, id, t, t', visits, hrender, hintroduce, hnext, rfl⟩ := Script.visits?_component hv
    obtain ⟨hfirst, hrest⟩ := List.forall_mem_cons.1 hused
    have hnodup := hdistinct
    rw [List.map_append, List.map_cons, List.nodup_middle, ← List.map_append] at hnodup
    have hother : ∀ w ∈ done ++ visits, w.identity ≠ spec.first.identity := fun w hw heq =>
      (List.nodup_cons.1 hnodup).1 (List.mem_map.2 ⟨w, hw, heq⟩)
    -- What is left only loses the seat of this call, and the calls to come are of other fragments.
    obtain ⟨hcalled, hsize, hsame, hnew⟩ := h.renderComponent hcalls.1 hkey hfirst
      (fun w hw => hother w (List.mem_append_left _ hw)) hrender
    obtain ⟨h', -, hextends⟩ := hcalled.grown (fun P hgrows =>
      .bind (.introduce hgrows id) fun _ => (Quiet.answer _ _).triple) hintroduce
    have hsize' := Nat.le_trans hsize hextends.size
    obtain ⟨left', hend, hlast, hcontinues⟩ := ih h' hcalls.2 hnext (by simpa using hdistinct) hrest
    refine ⟨left', by simpa using hend, Nat.le_trans hsize' hlast, ?_⟩
    refine List.forall_mem_cons.2 ⟨⟨fun w hw hidentity => ?_, fun hnone => ?_, Nat.le_refl _⟩,
      fun v hv => ?_⟩
    · have hfind := h.shelf.find?_eq hw
      rw [hidentity] at hfind
      exact hsame w hfind
    · refine hnew (List.find?_eq_none.2 fun w hw => ?_)
      have hne : w.identity ≠ spec.first.identity := hnone w hw
      simpa using hne
    · have hcontinues := hcontinues v hv
      have hvother := hother v (List.mem_append_right _ hv)
      refine ⟨fun w hw hidentity => ?_, fun hnone => ?_, Nat.le_trans hsize' hcontinues.later⟩
      · exact hcontinues.same w (mem_others.2 ⟨hw, hidentity.symm ▸ hvother⟩) hidentity
      · exact hcontinues.new fun w hw => hnone w (mem_others.1 hw).1

theorem RenderM.patch_of_begun {τ : Type} [RenderTarget τ] {ctx : Context} {mode : PatchMode}
    {rule : Key.MatchRule} {logger : Option LoggerId} {template : RenderM τ Unit}
    {s t u : RenderState τ} (hbegin : begun root mode rule logger (pure ()) ctx s = .done () t)
    (ht : template ctx t = .done () u) :
    patch root mode rule logger template ctx s = (do
      let _ ← callTarget .endPatch
      flushQueue) ctx u := by
  obtain ⟨_, s₁, hcall, hbegin⟩ := bind_eq_done.1 hbegin
  obtain ⟨_, s₂, hlogger, hbegin⟩ := bind_eq_done.1 hbegin
  cases hbegin
  simp only [patch, bracketed, bind_run, hcall, hlogger, attempt, ht, resume, pure_run]
  cases callTarget .endPatch ctx u <;> rfl

namespace Session

theorem ends_of_pass {O : Condition KeyedDom} {settings : Settings} {mode : PatchMode}
    {rule : Key.MatchRule} {logger : Option LoggerId} {script : Script} {report : PassReport}
    {s s' : Session KeyedDom} {t : RenderState KeyedDom}
    (hbegin : RenderM.begun root mode rule logger (pure ()) (context settings) s.initial = .done () t)
    (hrun : script.run KeyedDom (context settings) t = .done () u)
    (hlayers : u.renderer.layers.length = 0)
    (hend : Allows (fun _ => True) (fun t => O t u.shared.registry) u.renderer.pass.target.endPatch)
    (hgrows : ∀ t g g', O t g → g.Extends g' → O t g')
    (hpass : s.pass settings (.bracketed root mode rule logger script) = .ok (report, s')) :
    O s'.target s'.registry := by
  have hrest : Triple ⟨fun _ => True, 0, O⟩
      (fun t g => t = u.renderer.pass.target ∧ g = u.shared.registry) (do
        let _ ← RenderM.callTarget .endPatch
        RenderM.flushQueue) fun _ => O := by
    refine .bind (.callTarget (Q := fun _ => O) fun t g hp => ?_) fun _ =>
      .flushQueue (fun _ => trivial) hgrows
    obtain ⟨rfl, rfl⟩ := hp
    exact hend.map fun _ ho => ho
  have hmeets := hrest (context settings) u hlayers ⟨rfl, rfl⟩
  rw [← RenderM.patch_of_begun hbegin hrun] at hmeets
  have hperformed : Allows (fun _ => True) (fun s' => O s'.target s'.registry)
      (s.perform (.pass settings (.bracketed root mode rule logger script))) :=
    pass_of_meets hmeets
  simp only [perform, hpass] at hperformed
  exact hperformed

/-- A pass that succeeds, and whose script calls components of the family with different
fragments. -/
def Renders (F : Family) (root : NodeId) (s : Session KeyedDom) (visits : List Visit)
    (s' : Session KeyedDom) : Prop :=
  (visits.map Visit.identity).Nodup ∧ (∀ v ∈ visits, v.identity ∈ F.used) ∧
  ∃ settings rule logger script report t u, script.Calls F ∧
    RenderM.begun root .inner rule logger (pure ()) (context settings) s.initial = .done () t ∧
    script.visits? F.stack (context settings) t = some (visits, u) ∧
    s.pass settings (.bracketed root .inner rule logger script) = .ok (report, s')

inductive Run (F : Family) (root : NodeId) (s₀ : Session KeyedDom) :
    List (List Visit) → Session KeyedDom → Prop
  | start : Run F root s₀ [] s₀
  | pass {past : List (List Visit)} {visits : List Visit} {s s' : Session KeyedDom} :
      Run F root s₀ past s → s.Renders F root visits s' → Run F root s₀ (visits :: past) s'

variable {s₀ s s' : Session KeyedDom} {visits last : List Visit} {past : List (List Visit)}

theorem Renders.row (h : s.target.Row F root last s.registry) (hr : s.Renders F root visits s') :
    s'.target.Row F root visits s'.registry ∧
      ∀ v ∈ visits, v.Continues last s.registry.components.size := by
  obtain ⟨hdistinct, hused, settings, rule, logger, script, report, t, u, hcalls, hbegin, hvisits,
    hpass⟩ := hr
  have hbegun : Triple ⟨fun _ => True, 0, fun _ _ => True⟩
      (fun t g => t = s.target ∧ g = s.registry)
      (RenderM.begun root .inner rule logger (pure ()))
      fun _ (t : KeyedDom) g => g = s.registry ∧ t.Shelf F root [] last g := by
    refine .begun (fun t g hp => ?_) (.pure fun _ _ hp => hp)
    obtain ⟨rfl, rfl⟩ := hp
    obtain ⟨t', ht', hshelf⟩ := h.begins rule
    exact .of_ok_map ht' ⟨rfl, hshelf⟩
  obtain ⟨hlayers, hregistry, hshelf⟩ := hbegun.done rfl ⟨rfl, rfl⟩ hbegin
  have hbegun : t.Shelved F root [] last := ⟨hlayers, hshelf⟩
  obtain ⟨left, hend, -, hcontinues⟩ := hbegun.visits hcalls hvisits hdistinct hused
  obtain ⟨target, htarget, hrow⟩ := hend.shelf.ends
  have hperformed := ends_of_pass (O := fun t g => t.Row F root visits g) hbegin
    (Script.run_of_visits? hvisits) hend.layers (.of_ok htarget hrow)
    (fun _ _ _ hp he => hp.grows he) hpass
  exact ⟨hperformed, hregistry ▸ hcontinues⟩

theorem Run.row (hrun : Run F root s₀ past s) (h₀ : s₀.target.Row F root [] s₀.registry) :
    s.target.Row F root (past.headD []) s.registry := by
  induction hrun with
  | start => exact h₀
  | pass _ hpass ih => exact (hpass.row ih).1

/-- Passes below an element that was empty call components of one type, each pass with different
fragments. Whatever the orders of the calls, a call with a fragment of the pass before returns the
component that was returned for it there, and any other call returns a new one. After a pass the
children of the element are the seats of its calls, in their order. -/
theorem identity_of_run (h₀ : Reached Proper s₀)
    (hroot : (s₀.target.document.element? root).isSome)
    (hempty : s₀.target.document.children root = []) (hrun : Run F root s₀ past s)
    (hpass : s.Renders F root visits s') :
    (∀ v ∈ visits,
      (∀ w ∈ past.headD [], w.identity = v.identity → v.component = w.component) ∧
      ((∀ w ∈ past.headD [], w.identity ≠ v.identity) →
        v.component = v.count ∧ s.registry.components.size ≤ v.component)) ∧
    s'.target.document.children root = visits.map Visit.node ∧
    ∀ v ∈ visits, Seated F s'.target.document s'.registry v ∧
      (s'.registry.component? v.component).bind Component.node = some v.node := by
  have hleads : Leads (fun _ => True) (start .new) s₀ := h₀.leads
  have hlinked := hleads.keeps slotInvariant_linked linked_start
  have hstart : s₀.target.Row F root [] s₀.registry :=
    ⟨h₀.atRest.1.tree, hroot, hlinked, by simpa using hempty, by simp, by simp, by simp⟩
  obtain ⟨hrow, hcontinues⟩ := hpass.row (hrun.row hstart)
  refine ⟨fun v hv => ?_, hrow.children, fun v hv => ?_⟩
  · obtain ⟨hsame, hnew, hlater⟩ := hcontinues v hv
    refine ⟨hsame, fun hnone => ⟨hnew hnone, ?_⟩⟩
    rw [hnew hnone]
    exact hlater
  · exact ⟨hrow.seated v hv, (hrow.seated v hv).node_eq hrow.linked⟩

def counterFamily : Family where
  type := .counter
  stack := ""
  name := fun _ => "div"
  key := fun i => String.ofList i.2
  used := {i | i.1 = .text}
  injective := by
    rintro ⟨kind, text⟩ hi ⟨kind', text'⟩ hj h
    obtain rfl : kind = .text := hi
    obtain rfl : kind' = .text := hj
    have htext : text = text' := String.ofList_injective h
    rw [htext]

def counters : List String → Script
  | [] => .done
  | name :: rest => .component ⟨.counter, .text name, name, "div", name, .opened⟩ .done
      (.step (.text name) .done) (counters rest)

theorem calls_counters (names : List String) : (counters names).Calls counterFamily := by
  induction names with
  | nil => trivial
  | cons name rest ih =>
    have hkeeps : Script.done.KeepsKey := by
      rintro ctx s t ⟨⟩
      rfl
    refine ⟨⟨rfl, rfl, ?_, rfl, trivial, hkeeps, .flat trivial rfl False.elim .done⟩, ih⟩
    simp [counterFamily, Key.Fragment.identity, Key.Fragment.content]

def countersPass (names : List String) (s : Session KeyedDom) :
    Option (List Visit × Session KeyedDom) :=
  let settings : Settings := ⟨"", .null, loggedText, true⟩
  match RenderM.begun 0 .inner .keyed none (pure ()) (context settings) s.initial with
  | .done () t =>
    match (counters names).visits? "" (context settings) t,
        s.pass settings (.bracketed 0 .inner .keyed none (counters names)) with
    | some (visits, _), .ok (_, s') => some (visits, s')
    | _, _ => none
  | _ => none

theorem renders_of_countersPass {names : List String} (h : countersPass names s = some (visits, s'))
    (hdistinct : (visits.map Visit.identity).Nodup)
    (hused : ∀ v ∈ visits, v.identity.1 = .text) : s.Renders counterFamily 0 visits s' := by
  unfold countersPass at h
  dsimp only at h
  split at h
  · next t hbegin =>
    split at h
    · next visits' u report s'' hvisits hpass =>
      cases h
      exact ⟨hdistinct, hused, _, _, _, _, report, t, u, calls_counters names, hbegin, hvisits, hpass⟩
    · cases h
  · cases h

theorem identity_of_run_counters : ∃ first second s₁ s₂,
    Run counterFamily 0 (start .new) [first] s₁ ∧ s₁.Renders counterFamily 0 second s₂ ∧
    first.map (fun v => (v.first, v.component)) = [(.text "a", 0), (.text "b", 1)] ∧
    second.map (fun v => (v.first, v.component)) = [(.text "b", 1), (.text "c", 2), (.text "a", 0)] ∧
    (∀ v ∈ second, ∀ w ∈ first, w.identity = v.identity → v.component = w.component) ∧
    s₂.target.document.children 0 = second.map Visit.node := by
  have hboth : ((countersPass ["a", "b"] (start .new)).bind fun (first, s) =>
      (countersPass ["b", "c", "a"] s).map fun (second, _) => (first, second)) =
      some ([⟨.text "a", 0, 0, 1⟩, ⟨.text "b", 1, 1, 3⟩],
        [⟨.text "b", 2, 1, 3⟩, ⟨.text "c", 2, 2, 5⟩, ⟨.text "a", 3, 0, 1⟩]) := by decide +kernel
  obtain ⟨⟨first, s₁⟩, hfirst, hrest⟩ := Option.bind_eq_some_iff.1 hboth
  obtain ⟨⟨second, s₂⟩, hsecond, heq⟩ := Option.map_eq_some_iff.1 hrest
  cases heq
  have hrun : Run counterFamily 0 (start .new) _ s₁ :=
    .pass .start (renders_of_countersPass hfirst (by decide) (by decide))
  have hpass := renders_of_countersPass hsecond (by decide) (by decide)
  obtain ⟨hsame, hchildren, -⟩ := identity_of_run .start rfl rfl hrun hpass
  exact ⟨_, _, s₁, s₂, hrun, hpass, rfl, rfl, fun v hv => (hsame v hv).1, hchildren⟩

end Session

end KeyedRender
