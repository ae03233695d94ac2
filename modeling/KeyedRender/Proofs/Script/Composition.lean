import KeyedRender.Proofs.Script.Plan
import KeyedRender.Proofs.Script.Trail
import KeyedRender.Session

/-!
# Compositions

With component calls, what a script does to an element depends on what is attached there. Still
the keys do not, and so the script can be read before it runs: a composition is a plan with calls
in it. A call leads to the root of its component, which has a composition of its own.
-/
namespace KeyedRender

def Lead : Type := { plan : Plan // plan.IsLead }

/-- What is done to one element: parts of plans, elements that it opens, and component calls, each
with the key it looks for, what it does before it opens its root, and what it does inside. -/
inductive Composition
  | done
  | plain (plan : Plan) (next : Composition)
  | element (name key : String) (inner next : Composition)
  | component (spec : ComponentSpec) (key : String) (lead : Lead) (rootKey : String)
      (inner next : Composition)

def Composition.assigned : Composition → List Assignment
  | .done => []
  | .plain plan next => plan.assigned ++ next.assigned
  | .element _ _ _ next => next.assigned
  | .component _ _ lead _ _ next => lead.1.assigned ++ next.assigned

def Context.enter (ctx : Context) (id : ComponentId) : Context :=
  { ctx with rendering := id :: ctx.rendering }

namespace Session

def summon (s : Session KeyedDom) (ctx : Context) (spec : ComponentSpec) (key : String) :
    ComponentId × Registry :=
  match RenderM.findAttached? s.target.document s.registry spec.type key
      (s.target.document.siblingsFrom s.target.pointer?) with
  | some id => (id, s.registry)
  | none => s.registry.create
      (.new spec.type key (spec.label ++ "/" ++ ctx.injected.compactText))

def attach (s : Session KeyedDom) (id : ComponentId) (root : NodeId) : Session KeyedDom :=
  match s.registry.component? id with
  | some c => ⟨s.target.setDocument (attachedDocument s.target.document id c root),
      attachedRegistry s.target.document s.registry id c root⟩
  | none => s

def learn (s : Session KeyedDom) (id : ComponentId) : Session KeyedDom :=
  ⟨s.target, s.registry.learn id⟩

def index? (s : Session KeyedDom) (id : ComponentId) : Option Nat :=
  (s.registry.report? (fun _ => true) id).map ComponentReport.index

variable {s : Session KeyedDom} {id : ComponentId} {c : Component}

theorem attach_eq (hc : s.registry.component? id = some c) (root : NodeId) :
    s.attach id root = ⟨s.target.setDocument (attachedDocument s.target.document id c root),
      attachedRegistry s.target.document s.registry id c root⟩ := by
  simp only [attach, hc]

theorem index?_eq (hc : s.registry.component? id = some c) :
    s.index? id = some (s.registry.known.idxOf id) := by
  simp [index?, Registry.report?, hc]

end Session

inductive Composition.Runs : Context → Composition → Session KeyedDom →
    List (ComponentSpec × Option Nat) → Session KeyedDom → Prop
  | done {ctx : Context} {s : Session KeyedDom} : Runs ctx .done s [] s
  | plain {ctx : Context} {plan : Plan} {next : Composition} {s s' : Session KeyedDom}
      {t : KeyedDom} {called : List (ComponentSpec × Option Nat)} :
      plan.Runs s.target t → Runs ctx next ⟨t, s.registry⟩ called s' →
      Runs ctx (.plain plan next) s called s'
  | element {ctx : Context} {name key : String} {inner next : Composition}
      {s s₂ s' : Session KeyedDom} {node closed : Option NodeId} {t₁ t₃ : KeyedDom}
      {called called' : List (ComponentSpec × Option Nat)} :
      s.target.openElement name key = .ok (node, t₁) →
      Runs ctx inner ⟨t₁, s.registry⟩ called s₂ →
      s₂.target.closeElement = .ok (closed, t₃) → Runs ctx next ⟨t₃, s₂.registry⟩ called' s' →
      Runs ctx (.element name key inner next) s (called ++ called') s'
  | component {ctx : Context} {spec : ComponentSpec} {key rootKey : String} {lead : Lead}
      {inner next : Composition} {s s₃ s₅ s' : Session KeyedDom} {id : ComponentId} {g : Registry}
      {root : NodeId} {closed : Option NodeId} {t₁ t₂ t₄ : KeyedDom}
      {called called' : List (ComponentSpec × Option Nat)} :
      s.summon ctx spec key = (id, g) → id ∉ ctx.rendering → lead.1.Runs s.target t₁ →
      t₁.openElement spec.name rootKey = .ok (some root, t₂) →
      Runs (ctx.enter id) inner ⟨t₂, g.update id Component.countRender⟩ called s₃ →
      s₃.target.closeElement = .ok (closed, t₄) →
      s₅ = ((⟨t₄, s₃.registry⟩ : Session KeyedDom).attach id root).learn id →
      Runs ctx next s₅ called' s' →
      Runs ctx (.component spec key lead rootKey inner next) s
        (called ++ (spec, s₅.index? id) :: called') s'

inductive Composition.RunAll (ctx : Context) : List Composition → Session KeyedDom →
    List (ComponentSpec × Option Nat) → Session KeyedDom → Prop
  | last {c : Composition} {s s' : Session KeyedDom}
      {called : List (ComponentSpec × Option Nat)} : Runs ctx c s called s' →
      RunAll ctx [c] s called s'
  | closing {c : Composition} {rest : List Composition} {s s₁ s' : Session KeyedDom}
      {closed : Option NodeId} {t : KeyedDom}
      {called called' : List (ComponentSpec × Option Nat)} : Runs ctx c s called s₁ →
      s₁.target.closeElement = .ok (closed, t) → RunAll ctx rest ⟨t, s₁.registry⟩ called' s' →
      RunAll ctx (c :: rest) s (called ++ called') s'

theorem Composition.RunAll.exists_run {ctx : Context} {c : Composition} {rest : List Composition}
    {s u : Session KeyedDom} {called : List (ComponentSpec × Option Nat)}
    (h : RunAll ctx (c :: rest) s called u) :
    ∃ s₁ first last, called = first ++ last ∧ c.Runs ctx s first s₁ ∧
      ∀ c' s' first', Runs ctx c' s' first' s₁ → RunAll ctx (c' :: rest) s' (first' ++ last) u := by
  cases h with
  | last hrun =>
    exact ⟨_, _, [], (List.append_nil _).symm, hrun, fun _ _ _ hrun' => by
      rw [List.append_nil]
      exact .last hrun'⟩
  | closing hrun hclose hrest =>
    exact ⟨_, _, _, rfl, hrun, fun _ _ _ hrun' => .closing hrun' hclose hrest⟩

def Yields {α : Type} (ctx : Context) (m : RenderM KeyedDom α) (s : Session KeyedDom)
    (k : Keyring) (a : α) (s' : Session KeyedDom) (k' : Keyring)
    (called : List (ComponentSpec × Option Nat)) : Prop :=
  ∀ logger queue log, ∃ queue' log', calls log' = calls log ++ called ∧
    m ctx (Stage.state ⟨s.target, k⟩ logger queue s.registry log) =
      .done a (Stage.state ⟨s'.target, k'⟩ logger queue' s'.registry log')

theorem Brings.yields {α : Type} {m : RenderM KeyedDom α} {t t' : KeyedDom} {k k' : Keyring}
    {a : α} (h : Brings m ⟨t, k⟩ a ⟨t', k'⟩) (ctx : Context) (g : Registry) :
    Yields ctx m ⟨t, g⟩ k a ⟨t', g⟩ k' [] := by
  intro logger queue log
  obtain ⟨log', hcalls, hrun⟩ := h ctx logger queue g log
  exact ⟨queue, log', by rw [hcalls, List.append_nil], hrun⟩

namespace Yields

open RenderM

variable {α β : Type} {ctx : Context} {s s' s'' : Session KeyedDom} {k k' k'' : Keyring}
  {called called' : List (ComponentSpec × Option Nat)}

theorem bind {m : RenderM KeyedDom α} {next : α → RenderM KeyedDom β} {a : α} {b : β}
    (hm : Yields ctx m s k a s' k' called) (hnext : Yields ctx (next a) s' k' b s'' k'' called') :
    Yields ctx (m >>= next) s k b s'' k'' (called ++ called') := by
  intro logger queue log
  obtain ⟨queue₁, log₁, hcalls, h₁⟩ := hm logger queue log
  obtain ⟨queue₂, log₂, hcalls', h₂⟩ := hnext logger queue₁ log₁
  refine ⟨queue₂, log₂, by rw [hcalls', hcalls, List.append_assoc], ?_⟩
  rw [bind_run, h₁]
  exact h₂

theorem pure (a : α) : Yields ctx (Pure.pure a) s k a s k [] :=
  (Brings.pure a).yields ctx s.registry

theorem enterComponent {id : ComponentId} (hid : id ∉ ctx.rendering) :
    Yields ctx (RenderM.enterComponent id) s k id
      ⟨s.target, s.registry.update id Component.countRender⟩ k [] := by
  intro logger queue log
  obtain ⟨queue', hqueue⟩ : ∃ queue',
      (Stage.state ⟨s.target, k⟩ logger queue s.registry log).renderer.enqueue id =
        (Stage.state ⟨s.target, k⟩ logger queue' s.registry log).renderer := by
    unfold Renderer.enqueue
    split
    · exact ⟨_, rfl⟩
    · exact ⟨queue, rfl⟩
  refine ⟨queue', log, (List.append_nil _).symm, ?_⟩
  rw [enterComponent_run, if_neg hid, hqueue]
  rfl

theorem beginComponent {spec : ComponentSpec} {id : ComponentId} {g : Registry}
    (hsummon : s.summon ctx spec (Key.encode spec.first ++ k.keys.current) = (id, g))
    (hid : id ∉ ctx.rendering) : Yields ctx (RenderM.beginComponent spec) s k id
      ⟨s.target, g.update id Component.countRender⟩ k [] := by
  intro logger queue log
  obtain ⟨queue', log', hcalls, henter⟩ :=
    enterComponent (s := ⟨s.target, g⟩) (k := k) hid logger queue log
  refine ⟨queue', log', hcalls, ?_⟩
  have hfind : findComponent? spec.type (Key.encode spec.first ++ k.keys.current) ctx
      (Stage.state ⟨s.target, k⟩ logger queue s.registry log) = .done
        (findAttached? s.target.document s.registry spec.type
          (Key.encode spec.first ++ k.keys.current)
          (s.target.document.siblingsFrom s.target.pointer?)) _ := findComponent?_run rfl ..
  have hkey : (Stage.state ⟨s.target, k⟩ logger queue s.registry log).renderer.currentKey =
    k.keys.current := rfl
  simp only [RenderM.beginComponent, bind_run, renderer, hkey, hfind]
  unfold Session.summon at hsummon
  cases hfound : findAttached? s.target.document s.registry spec.type
      (Key.encode spec.first ++ k.keys.current)
      (s.target.document.siblingsFrom s.target.pointer?) with
  | some found =>
    rw [hfound] at hsummon
    cases hsummon
    exact henter
  | none =>
    rw [hfound] at hsummon
    cases hsummon
    exact henter

theorem attach (id : ComponentId) (root : NodeId) :
    Yields ctx (RenderM.attach id root) s k () (s.attach id root) k [] := by
  intro logger queue log
  refine ⟨queue, log, (List.append_nil _).symm, ?_⟩
  unfold Session.attach
  cases hc : s.registry.component? id with
  | none => exact Stable.attach_run_hidden (fun _ => hc) root
  | some c => exact Stable.attach_run rfl hc root

theorem introduce (id : ComponentId) (spec : ComponentSpec) :
    Yields ctx (do
      let report ← RenderM.introduce id
      RenderM.answer (.component spec) (some (.component report))) s k () (s.learn id) k
      [(spec, (s.learn id).index? id)] := by
  intro logger queue log
  refine ⟨queue, log.push (.answer (.component spec) (.component
    ((s.learn id).registry.report? (fun _ => true) id))), ?_, rfl⟩
  simp [calls, List.filterMap_append, Event.call?, Session.index?]

theorem withContext {m : RenderM KeyedDom α} {a : α} {change : Context → Context}
    (h : Yields (change ctx) m s k a s' k' called) :
    Yields ctx (RenderM.withContext change m) s k a s' k' called := h

theorem stepComponent {spec : ComponentSpec} {before body : RenderM KeyedDom Unit}
    {id : ComponentId} {g : Registry} {root : NodeId} {closed : Option NodeId}
    {t₁ t₂ t₄ : KeyedDom} {s₃ s₅ : Session KeyedDom} (hroot : spec.root = .opened)
    (hsummon : s.summon ctx spec (Key.encode spec.first ++ k.keys.current) = (id, g))
    (hid : id ∉ ctx.rendering) (hbefore : Brings before ⟨s.target, k⟩ () ⟨t₁, k'⟩)
    (hopen : t₁.openElement spec.name (k'.keys.newKey (.text spec.key)) = .ok (some root, t₂))
    (hbody : Yields (ctx.enter id) body ⟨t₂, g.update id Component.countRender⟩ k' () s₃ k''
      called)
    (hclose : s₃.target.closeElement = .ok (closed, t₄))
    (hattach : s₅ = ((⟨t₄, s₃.registry⟩ : Session KeyedDom).attach id root).learn id) :
    Yields ctx (RenderM.stepComponent spec before body) s k () s₅ k''
      (called ++ [(spec, s₅.index? id)]) := by
  have hbegun : Yields ctx (renderBegun spec before body id)
      ⟨s.target, g.update id Component.countRender⟩ k (some root) ⟨t₄, s₃.registry⟩ k''
      ([] ++ ([] ++ (called ++ ([] ++ [])))) := by
    refine .withContext (.bind (hbefore.yields _ _) ?_)
    rw [hroot]
    exact .bind ((Brings.openElement hopen).yields _ _) (.bind hbody
      (.bind ((Brings.emit .closeElement hclose).yields _ _) (.pure _)))
  have hfinish : Yields ctx (finishComponent id (some root)) ⟨t₄, s₃.registry⟩ k'' (some id)
      ((⟨t₄, s₃.registry⟩ : Session KeyedDom).attach id root) k'' ([] ++ []) :=
    .bind (.attach id root) (.pure _)
  have hrender : Yields ctx (do
      let id ← RenderM.beginComponent spec
      finishComponent id (← renderBegun spec before body id)) s k (some id) _ k'' _ :=
    .bind (beginComponent hsummon hid) (.bind hbegun hfinish)
  simp only [List.nil_append, List.append_nil] at hrender
  subst hattach
  unfold RenderM.stepComponent
  rw [renderComponent_eq]
  exact .bind hrender (introduce id spec)

end Yields

/-- A script of plain steps, which opens no element. -/
inductive Script.Leads : Script → Prop
  | done : Leads .done
  | plain {i : Instruction} {next : Script} : i.IsPlain → Leads next → Leads (.step i next)

theorem Script.Leads.exists_lead {script : Script} (h : script.Leads) (k : Keyring) :
    ∃ lead : Lead, ∃ k', ∀ t t', lead.1.Runs t t' →
      Brings (script.run KeyedDom) ⟨t, k⟩ () ⟨t', k'⟩ := by
  induction h generalizing k with
  | done =>
    refine ⟨⟨.done, trivial⟩, k, fun t t' h => ?_⟩
    cases h
    exact .pure ()
  | @plain i next hi _ ih =>
    obtain ⟨add, hadd, hlead⟩ := hi.exists_adds k
    obtain ⟨lead, k', hruns⟩ := ih (k.after i)
    refine ⟨⟨add lead.1, hlead lead.1 lead.2⟩, k', fun t t' h => ?_⟩
    obtain ⟨a, t₁, hbrings, hrest⟩ := hadd lead.1 t t' h
    exact .bind hbrings (.bind (.answer (by simp) a) (hruns t₁ t' hrest))

/-- A script of plain steps and component calls, from one number of open elements to another.
Each component opens its root itself, calls others only inside of it, and gives it back. -/
inductive Script.Composes : Nat → Nat → Script → Prop
  | done {depth : Nat} : Composes depth depth .done
  | opening {depth final : Nat} {next : Script} (name key : String) :
      Composes (depth + 1) final next → Composes depth final (.step (.openElement name key) next)
  | closing {depth final : Nat} {next : Script} :
      Composes depth final next → Composes (depth + 1) final (.step .closeElement next)
  | plain {depth final : Nat} {next : Script} {i : Instruction} : i.IsPlain →
      Composes depth final next → Composes depth final (.step i next)
  | component {depth final : Nat} {spec : ComponentSpec} {before body next : Script} :
      spec.root = .opened → before.Leads → Composes 0 0 body → Composes depth final next →
      Composes depth final (.component spec before body next)

def Script.components : Script → List ComponentSpec
  | .done => []
  | .step _ next => next.components
  | .block _ body next => body.components ++ next.components
  | .component spec before body next =>
    before.components ++ (body.components ++ spec :: next.components)

theorem Script.Leads.components_eq_nil {script : Script} (h : script.Leads) :
    script.components = [] := by
  induction h with
  | done => rfl
  | plain _ _ ih => exact ih

namespace Script.Composes

variable {depth final : Nat} {script next : Script} {k : Keyring}

/-- A script that is a composition for each element open before it, whatever follows it. -/
def ComposesAs (script : Script) (depth final : Nat) (k k' : Keyring) : Prop :=
  ∀ after : List Composition, after.length = final + 1 →
    ∃ cs : List Composition, cs.length = depth + 1 ∧ ∀ ctx s called u,
      Composition.RunAll ctx cs s called u → ∃ s' first last, called = first ++ last ∧
        first.map Prod.fst = script.components ∧
        Yields ctx (script.run KeyedDom) s k () s' k' first ∧
        Composition.RunAll ctx after s' last u

theorem ComposesAs.exists_composition {k' : Keyring} (h : ComposesAs script 0 0 k k') :
    ∃ c : Composition, ∀ ctx s called u, c.Runs ctx s called u →
      called.map Prod.fst = script.components ∧
        Yields ctx (script.run KeyedDom) s k () u k' called := by
  obtain ⟨cs, hlength, hruns⟩ := h [.done] rfl
  obtain ⟨c, rfl⟩ := List.length_eq_one_iff.1 hlength
  refine ⟨c, fun ctx s called u hc => ?_⟩
  obtain ⟨s', first, last, rfl, hspecs, hyields, hafter⟩ := hruns ctx s called u (.last hc)
  cases hafter with
  | last hdone =>
    cases hdone
    rw [List.append_nil]
    exact ⟨hspecs, hyields⟩
  | closing _ _ hrest => cases hrest

theorem yields_step {ctx : Context} {i : Instruction} {a : Option Answer}
    {s s' : Session KeyedDom} {t : KeyedDom} {k' k'' : Keyring}
    {called : List (ComponentSpec × Option Nat)}
    (hi : Brings (i.perform (τ := KeyedDom)) ⟨s.target, k⟩ a ⟨t, k'⟩)
    (hnext : Yields ctx (next.run KeyedDom) ⟨t, s.registry⟩ k' () s' k'' called) :
    Yields ctx ((Script.step i next).run KeyedDom) s k () s' k'' called :=
  .bind (hi.yields ctx s.registry)
    (.bind ((Brings.answer (by simp) a).yields ctx s.registry) hnext)

variable {k' k'' : Keyring}

theorem ComposesAs.done (depth : Nat) (k : Keyring) : ComposesAs .done depth depth k k :=
  fun after hafter => ⟨after, hafter, fun _ s called _ h => ⟨s, [], called, rfl, rfl, .pure (), h⟩⟩

theorem ComposesAs.opening (h : ComposesAs next (depth + 1) final k k') (name key : String) :
    ComposesAs (.step (.openElement name key) next) depth final k k' := by
  intro after hafter
  obtain ⟨cs, hlength, hruns⟩ := h after hafter
  obtain ⟨inner, rest, rfl⟩ := List.exists_cons_of_length_eq_add_one hlength
  obtain ⟨c, rest, rfl⟩ := List.exists_cons_of_length_eq_add_one (Nat.succ.inj hlength)
  refine ⟨.element name (k.keys.newKey (.text key)) inner c :: rest, by simpa using hlength,
    fun ctx s called u hrun => ?_⟩
  obtain ⟨s₁, first, last, rfl, hrun, hthen⟩ := hrun.exists_run
  cases hrun with
  | @element _ _ _ _ _ _ _ _ node _ _ _ _ _ hopen hinner hclose hc =>
    obtain ⟨s', first', last', hcalled, hspecs, hyields, hafter⟩ :=
      hruns ctx _ _ u (.closing hinner hclose (hthen _ _ _ hc))
    have hperform : Brings (Instruction.perform (.openElement name key)) ⟨s.target, k⟩
        (some (.node node)) ⟨_, k⟩ := .bind (.openElement hopen) (.pure _)
    exact ⟨s', first', last', by rw [← hcalled, List.append_assoc], hspecs,
      yields_step hperform hyields, hafter⟩

theorem ComposesAs.closing (h : ComposesAs next depth final k k') :
    ComposesAs (.step .closeElement next) (depth + 1) final k k' := by
  intro after hafter
  obtain ⟨cs, hlength, hruns⟩ := h after hafter
  refine ⟨.done :: cs, by simp [hlength], fun ctx s called u hrun => ?_⟩
  cases hrun with
  | last => cases hlength
  | closing hdone hclose hrest =>
    cases hdone
    obtain ⟨s', first', last', hcalled, hspecs, hyields, hafter⟩ := hruns ctx _ _ u hrest
    have hperform : Brings (Instruction.perform .closeElement) ⟨s.target, k⟩ _ ⟨_, k⟩ :=
      .bind (.emit? .closeElement hclose) (.pure _)
    exact ⟨s', first', last', by rw [← hcalled]; rfl, hspecs, yields_step hperform hyields, hafter⟩

theorem ComposesAs.plain {i : Instruction} {add : Plan → Plan}
    (hi : Adds (i.perform (τ := KeyedDom)) k add k') (h : ComposesAs next depth final k' k'') :
    ComposesAs (.step i next) depth final k k'' := by
  intro after hafter
  obtain ⟨cs, hlength, hruns⟩ := h after hafter
  obtain ⟨c, rest, rfl⟩ := List.exists_cons_of_length_eq_add_one hlength
  refine ⟨.plain (add .done) c :: rest, hlength, fun ctx s called u hrun => ?_⟩
  obtain ⟨s₁, first, last, rfl, hrun, hthen⟩ := hrun.exists_run
  cases hrun with
  | plain hplan hc =>
    obtain ⟨a, t, hbrings, hdone⟩ := hi .done _ _ hplan
    cases hdone
    obtain ⟨s', first', last', hcalled, hspecs, hyields, hafter⟩ :=
      hruns ctx _ _ u (hthen _ _ _ hc)
    exact ⟨s', first', last', hcalled, hspecs, yields_step hbrings hyields, hafter⟩

theorem ComposesAs.component {spec : ComponentSpec} {before body : Script} {k₁ k₂ : Keyring}
    {lead : Lead} (hroot : spec.root = .opened) (hbefore : before.Leads)
    (hlead : ∀ t t', lead.1.Runs t t' → Brings (before.run KeyedDom) ⟨t, k⟩ () ⟨t', k₁⟩)
    (hbody : ComposesAs body 0 0 k₁ k₂) (h : ComposesAs next depth final k₂ k') :
    ComposesAs (.component spec before body next) depth final k k' := by
  intro after hafter
  obtain ⟨inner, hinner⟩ := hbody.exists_composition
  obtain ⟨cs, hlength, hruns⟩ := h after hafter
  obtain ⟨c, rest, rfl⟩ := List.exists_cons_of_length_eq_add_one hlength
  refine ⟨.component spec (Key.encode spec.first ++ k.keys.current) lead
    (k₁.keys.newKey (.text spec.key)) inner c :: rest, hlength, fun ctx s called u hrun => ?_⟩
  obtain ⟨s₁, first, last, rfl, hrun, hthen⟩ := hrun.exists_run
  cases hrun with
  | @component _ _ _ _ _ _ _ _ _ s₅ _ id _ _ _ _ _ _ called called' hsummon hid hleads hopen
      hcalls hclose hattach hc =>
    obtain ⟨hspecs, hyields⟩ := hinner _ _ _ _ hcalls
    have hstep := Yields.stepComponent hroot hsummon hid (hlead _ _ hleads) hopen hyields
      hclose hattach
    obtain ⟨s', first', last', hcalled, hspecs', hyields', hafter⟩ :=
      hruns ctx _ _ u (hthen _ _ _ hc)
    refine ⟨s', called ++ [(spec, s₅.index? id)] ++ first', last', ?called, ?specs, ?yields,
      hafter⟩
    case yields =>
      rw [run_component]
      exact .bind hstep hyields'
    case called => simp only [List.append_assoc, List.cons_append, List.nil_append, hcalled]
    case specs => simp [components, hbefore.components_eq_nil, hspecs, hspecs']

theorem exists_composesAs (h : script.Composes depth final) (k : Keyring) :
    ∃ k', ComposesAs script depth final k k' := by
  induction h generalizing k with
  | done => exact ⟨k, .done _ k⟩
  | opening name key _ ih =>
    obtain ⟨k', hnext⟩ := ih k
    exact ⟨k', hnext.opening name key⟩
  | closing _ ih =>
    obtain ⟨k', hnext⟩ := ih k
    exact ⟨k', hnext.closing⟩
  | @plain depth final next i hi _ ih =>
    obtain ⟨add, hadd, -⟩ := hi.exists_adds k
    obtain ⟨k', hnext⟩ := ih (k.after i)
    exact ⟨k', .plain hadd hnext⟩
  | component hroot hbefore _ _ ihbody ih =>
    obtain ⟨lead, k₁, hlead⟩ := hbefore.exists_lead k
    obtain ⟨k₂, hbody⟩ := ihbody k₁
    obtain ⟨k', hnext⟩ := ih k₂
    exact ⟨k', .component hroot hbefore hlead hbody hnext⟩

/-- A balanced script has a composition: whatever session the composition can be followed on, the
script does. -/
theorem exists_composition (h : script.Composes 0 0) (k : Keyring) :
    ∃ c : Composition, ∃ k', ∀ ctx s called u, c.Runs ctx s called u →
      called.map Prod.fst = script.components ∧
        Yields ctx (script.run KeyedDom) s k () u k' called := by
  obtain ⟨k', hk⟩ := h.exists_composesAs k
  obtain ⟨c, hc⟩ := hk.exists_composition
  exact ⟨c, k', hc⟩

end Script.Composes

end KeyedRender
