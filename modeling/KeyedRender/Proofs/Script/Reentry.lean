import KeyedRender.Proofs.Document.Siblings
import KeyedRender.Proofs.Script.Filling
import KeyedRender.Proofs.Target.Attachment
import KeyedRender.Proofs.Target.Ordered

/-!
# Calls of components that are rendering

A component that is found at a moment holds the slot of a child of the innermost open element. A
caller that found the same component, in the same slot, did so when the parent of that child was
innermost. If an element more is open since then, it cannot be innermost again.
-/
namespace KeyedRender

open RenderM

def Question.isComponent : Question → Bool
  | .component _ => true
  | _ => false

namespace Moment

section

variable {τ : Type}

/-- The later moments that are in the rendering which a moment begins. -/
def during (m : Moment τ) (later : List (Moment τ)) : List (Moment τ) :=
  later.takeWhile fun m' => m.context.rendering.length < m'.context.rendering.length

variable [RenderTarget τ]

/-- A call of a component finds none that is rendering, and the rendering begins. -/
def Admits (m : Moment τ) : Prop :=
  ∀ spec, m.question = .component spec →
    (∀ id, findComponent? spec.type (Key.encode spec.first ++ m.state.renderer.currentKey)
      m.context m.state = .done (some id) m.state → id ∉ m.context.rendering) ∧
    ∃ id t, beginComponent spec m.context m.state = .done id t

end

def openElements (m : Moment KeyedDom) : List NodeId := m.state.renderer.pass.target.openElements

end Moment

/-- Renderings that leave open what was open when they were called, and that call components on the
bare target only while an element more is open. -/
def Nests : List (Moment KeyedDom) → Prop
  | [] => True
  | m :: later =>
    (m.question.isComponent = true → ∀ m' ∈ m.during later, m'.question.isComponent = true →
      m'.state.renderer.layers = [] → m.openElements <:+ m'.openElements.tail) ∧ Nests later

def decidableNests : (ms : List (Moment KeyedDom)) → Decidable (Nests ms)
  | [] => .isTrue trivial
  | m :: later =>
    have := decidableNests later
    inferInstanceAs (Decidable ((m.question.isComponent = true → ∀ m' ∈ m.during later,
      m'.question.isComponent = true → m'.state.renderer.layers = [] →
        m.openElements <:+ m'.openElements.tail) ∧ Nests later))

instance (ms : List (Moment KeyedDom)) : Decidable (Nests ms) := decidableNests ms

section Begun

variable {τ : Type} [RenderTarget τ] {m : Moment τ} {id : ComponentId} {s t : RenderState τ}

theorem Moment.Begins.lt_size (h : m.Begins id t) : id < t.shared.registry.components.size := by
  obtain ⟨spec, -, hbegin⟩ := h
  exact lt_size_of_beginComponent hbegin

theorem Moment.admits_of_found (hknown : ∀ id ∈ m.context.rendering,
      id < m.state.shared.registry.components.size)
    (hfound : ∀ spec id, m.question = .component spec →
      findComponent? spec.type (Key.encode spec.first ++ m.state.renderer.currentKey)
        m.context m.state = .done (some id) m.state → id ∉ m.context.rendering) : m.Admits := by
  intro spec hspec
  refine ⟨fun id => hfound spec id hspec, ?_⟩
  obtain ⟨found, hdone⟩ := findComponent?_done spec.type
    (Key.encode spec.first ++ m.state.renderer.currentKey) m.context m.state
  cases found with
  | some id =>
    rw [beginComponent_found hdone, enterComponent_run, if_neg (hfound spec id hspec hdone)]
    exact ⟨_, _, rfl⟩
  | none =>
    have hnew : m.state.shared.registry.components.size ∉ m.context.rendering := fun hmem =>
      Nat.lt_irrefl _ (hknown _ hmem)
    simp only [beginComponent, bind_run, renderer, hdone, Stable.createComponent_run,
      enterComponent_run, if_neg hnew]
    exact ⟨_, _, rfl⟩

theorem Approach.known {R : List (Moment τ) → RenderState τ → RenderState τ → Prop}
    (hR : ∀ {ms s t}, R ms s t →
      s.shared.registry.components.size ≤ t.shared.registry.components.size)
    {ctx : Context} {before : List (Moment τ)} (h : Approach R ctx s before m)
    (hctx : ∀ id ∈ ctx.rendering, id < s.shared.registry.components.size) :
    ∀ id ∈ m.context.rendering, id < m.state.shared.registry.components.size := by
  intro id hid
  rcases h.callers id hid with hid | ⟨earlier, caller, between, u, hcall⟩
  · exact Nat.lt_of_lt_of_le (hctx id hid) (hR h.course)
  · exact Nat.lt_of_lt_of_le hcall.begins.lt_size (hR hcall.course)

end Begun

section Nesting

theorem nests_append {ms later : List (Moment KeyedDom)} (h : Nests (ms ++ later)) :
    Nests ms ∧ Nests later := by
  induction ms with
  | nil => exact ⟨trivial, h⟩
  | cons m ms ih =>
    refine ⟨⟨fun hm m' hm' => h.1 hm m' ?_, (ih h.2).1⟩, (ih h.2).2⟩
    rw [Moment.during, List.append_eq, List.takeWhile_append]
    split
    · exact List.mem_append_left _ ((List.takeWhile_sublist _).subset hm')
    · exact hm'

theorem mem_during {τ : Type} {caller m : Moment τ} {between after : List (Moment τ)}
    {id : ComponentId}
    (h : ∀ m' ∈ between ++ [m], id :: caller.context.rendering <:+ m'.context.rendering) :
    m ∈ caller.during (between ++ m :: after) := by
  have deeper : ∀ m' ∈ between ++ [m],
      decide (caller.context.rendering.length < m'.context.rendering.length) = true :=
    fun m' hm' => decide_eq_true (h m' hm').length_le
  rw [Moment.during, List.takeWhile_append_of_pos fun m' hm' =>
    deeper m' (List.mem_append_left _ hm')]
  refine List.mem_append_right _ ?_
  rw [List.takeWhile_cons, if_pos (deeper m (by simp))]
  exact List.mem_cons_self

theorem innermost_of_nests {earlier between after : List (Moment KeyedDom)}
    {caller m : Moment KeyedDom} {id : ComponentId}
    (h : Nests (earlier ++ caller :: (between ++ m :: after)))
    (hin : ∀ m' ∈ between ++ [m], id :: caller.context.rendering <:+ m'.context.rendering)
    (hcaller : caller.question.isComponent = true) (hm : m.question.isComponent = true)
    (hlayers : m.state.renderer.layers = []) :
    caller.openElements <:+ m.openElements.tail :=
  (nests_append h).2.1 hcaller m (mem_during hin) hm hlayers

end Nesting

section Found

variable {s : RenderState KeyedDom} {type : ComponentType} {key : String} {ctx : Context}
  {id : ComponentId}

theorem found_innermost (hs : s.renderer.pass.target.document.IsTree)
    (h : findComponent? type key ctx s = .done (some id) s) :
    ∃ n slot p, s.renderer.pass.target.document.slot? n = some slot ∧ slot.component = id ∧
      s.renderer.pass.target.document.parent? n = some p ∧
      s.renderer.pass.target.openElements.head? = some p := by
  obtain ⟨n, hn, slot, hslot, hid, -⟩ := slot_of_findAttached? (findComponent?_some h).2
  change n ∈ s.renderer.pass.target.document.siblingsFrom s.renderer.pass.target.pointer? at hn
  cases hf : s.renderer.pass.target.frames with
  | nil =>
    rw [KeyedDom.pointer?, hf] at hn
    rw [show ([] : List Frame).head?.bind _ = none from rfl, Document.siblingsFrom_none] at hn
    cases hn
  | cons f below =>
    rw [KeyedDom.pointer?, hf] at hn
    simp only [List.head?_cons, Option.bind_some, hs.siblingsFrom_eq] at hn
    exact ⟨n, slot, f.parent, hslot, hid, hs.parent (List.mem_of_mem_drop hn), by
      simp [KeyedDom.openElements, hf]⟩

end Found

def Orderly (t : KeyedDom) (g : Registry) : Prop := t.Ordered ∧ Linked t.document g

theorem orderly_calls : CallInvariant (fun _ => True) Orderly :=
  KeyedDom.ordered_calls.and slotInvariant_linked.calls

theorem KeyedDom.Ordered.head?_ne {t : KeyedDom} (h : t.Ordered) {l : List NodeId} {p p' : NodeId}
    (hl : l <:+ t.openElements.tail) (hp : l.head? = some p) (hp' : t.openElements.head? = some p') :
    p ≠ p' := by
  cases hopen : t.openElements with
  | nil =>
    rw [hopen] at hp'
    cases hp'
  | cons inner outer =>
    rw [hopen] at hp' hl
    cases hp'
    have hyounger := h.younger
    rw [hopen] at hyounger
    exact Nat.ne_of_lt ((List.pairwise_cons.1 hyounger).1 p (hl.subset (List.mem_of_head? hp)))

section Script

variable {script : Script} {ctx : Context} {s : RenderState KeyedDom}
  (hctx : ctx.rendering = []) (hs : Orderly s.renderer.pass.target s.shared.registry)
  (hn : Nests (script.moments ctx s))
include hctx hs hn

theorem Script.found_not_rendering {before after : List (Moment KeyedDom)} {m : Moment KeyedDom}
    (hsplit : script.moments ctx s = before ++ m :: after) {spec : ComponentSpec}
    {id : ComponentId} (hspec : m.question = .component spec)
    (hfound : findComponent? spec.type (Key.encode spec.first ++ m.state.renderer.currentKey)
      m.context m.state = .done (some id) m.state) : id ∉ m.context.rendering := by
  intro hid
  have hguides : Guides (fun _ => True) ctx.watched (Conserves Orderly) :=
    .of_stable (fun _ _ => trivial) (fun _ => trivial) orderly_calls.stable
  have hfills := script.approaches (Fills.guides ctx.watched) script.all_trivial
  have hconserves := script.approaches hguides script.all_trivial
  obtain hid | ⟨earlier, caller, between, u, hcall⟩ :=
    (hfills ctx s before m after rfl hsplit).callers id hid
  · rw [hctx] at hid
    cases hid
  obtain rfl := hcall.split
  have hsplit' : script.moments ctx s = earlier ++ caller :: (between ++ m :: after) := by
    rw [hsplit, List.append_assoc, List.cons_append]
  have hnow : Orderly m.state.renderer.pass.target m.state.shared.registry :=
    (hconserves ctx s _ m after rfl hsplit).course hs
  have hthen : Orderly caller.state.renderer.pass.target caller.state.shared.registry :=
    (hconserves ctx s earlier caller _ rfl hsplit').course hs
  obtain ⟨n, slot, p, hslot, hcomponent, hparent, hhead⟩ := found_innermost hnow.1.tree hfound
  obtain ⟨spec', hspec', hbegin⟩ := hcall.begins
  -- No call since then could begin the component, so that its slot is the one of that time.
  have hfilled : u.renderer.pass.target.document.slot? n = some slot := by
    refine (hcall.course.slots hslot).resolve_right fun ⟨m', hm', v, hbegins⟩ => ?_
    have hmem := (hcall.within m' (List.mem_append_left _ hm')).subset List.mem_cons_self
    exact hbegins.not_rendering (hcomponent ▸ hmem)
  rw [beginComponent_renderer hbegin, Renderer.target_enqueue] at hfilled
  obtain ⟨c, hc, -⟩ := hthen.2 n slot hfilled
  rcases beginComponent_origin hbegin with hfound' | ⟨hnew, -⟩
  · obtain ⟨n', slot', p', hslot', hcomponent', hparent', hhead'⟩ :=
      found_innermost hthen.1.tree hfound'
    obtain rfl : n' = n := hthen.2.unique hfilled hslot' (hcomponent'.trans hcomponent.symm)
    have hkept : u.renderer.pass.target.document.SameParents m.state.renderer.pass.target.document :=
      hcall.course.parents
    rw [beginComponent_renderer hbegin, Renderer.target_enqueue] at hkept
    obtain ⟨e, he, -⟩ := Document.slot?_eq_some_iff.1 hfilled
    have hsame := hkept.parent (Document.lt_size_of_element? he) hparent
    have hopen := innermost_of_nests (hsplit' ▸ hn) hcall.within (by rw [hspec']; rfl)
      (by rw [hspec]; rfl) (findComponent?_some hfound).1
    exact hnow.1.head?_ne hopen hhead' hhead (Option.some.inj (hparent'.symm.trans hsame))
  · exact absurd (Registry.lt_size_of_component? hc) (by rw [hcomponent, hnew]; exact Nat.lt_irrefl _)

omit hs hn in
theorem Script.known {m : Moment KeyedDom} (hm : m ∈ script.moments ctx s) :
    ∀ id ∈ m.context.rendering, id < m.state.shared.registry.components.size := by
  obtain ⟨before, after, hsplit⟩ := List.append_of_mem hm
  have happroach := script.approaches (Fills.guides ctx.watched) script.all_trivial ctx s before m
    after rfl hsplit
  exact happroach.known (fun h => h.size) (by simp [hctx])

/-- No component that is rendering is called. -/
theorem Script.admits {m : Moment KeyedDom} (hm : m ∈ script.moments ctx s) : m.Admits := by
  obtain ⟨before, after, hsplit⟩ := List.append_of_mem hm
  exact Moment.admits_of_found (script.known hctx hm) fun spec id hspec hfound =>
    script.found_not_rendering hctx hs hn hsplit hspec hfound

end Script

section Aside

/-- Moments on the side: some content is rendered on a markup target, in a context where the same
components are rendering, and from what is shared then. -/
inductive Beside : Context → Shared → Moment MarkupWriter → Prop
  | here {ctx inside : Context} {script : Script} {s : RenderState MarkupWriter}
      {m : Moment MarkupWriter} : inside.watched = false → inside.rendering = ctx.rendering →
      m ∈ script.moments inside s → Beside ctx s.shared m
  | within {ctx : Context} {sh : Shared} {m m' : Moment MarkupWriter} : Beside ctx sh m →
      Beside m.context m.state.shared m' → Beside ctx sh m'

/-- On a markup target nothing is found, and so nothing that is rendering. -/
theorem Beside.admits {ctx : Context} {sh : Shared} {m : Moment MarkupWriter}
    (hknown : ∀ id ∈ ctx.rendering, id < sh.registry.components.size) (h : Beside ctx sh m) :
    (∀ id ∈ m.context.rendering, id < m.state.shared.registry.components.size) ∧ m.Admits := by
  induction h with
  | @here ctx inside script s m hw hr hm =>
    have hguides : Guides (fun _ => True) false (Side.course (τ := MarkupWriter) fun sh sh' =>
        sh.registry.components.size ≤ sh'.registry.components.size) :=
      .of_path side_size side_size.trail.path fun _ _ => Nat.le_refl _
    obtain ⟨before, after, hsplit⟩ := List.append_of_mem hm
    have happroach := script.approaches hguides script.all_trivial inside s before m after hw hsplit
    have hm := happroach.known (fun h => h) (by rw [hr]; exact hknown)
    refine ⟨hm, Moment.admits_of_found hm fun spec id _ hfound => ?_⟩
    rw [MarkupWriter.findComponent?_none] at hfound
    cases hfound
  | within _ _ ih ih' => exact ih' (ih hknown).1

end Aside

end KeyedRender
