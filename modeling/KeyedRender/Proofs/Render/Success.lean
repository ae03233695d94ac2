import KeyedRender.Proofs.Render.Contents

/-!
# Renderings that succeed

A rendering that succeeds has gone through all of its steps. If no layer is over the pass, its
calls have reached the target.
-/
namespace KeyedRender.RenderM

variable {τ α β : Type} {ctx : Context} {s u : RenderState τ}

theorem bind_eq_done {m : RenderM τ α} {next : α → RenderM τ β} {b : β} :
    (m >>= next) ctx s = .done b u ↔ ∃ a t, m ctx s = .done a t ∧ next a ctx t = .done b u := by
  rw [bind_run]
  cases m ctx s <;> simp [and_assoc]

variable [RenderTarget τ] {spec : ComponentSpec} {before body : RenderM τ Unit}

theorem callTarget_run (ctx : Context) {call : TargetCall} {node : Option NodeId} {target : τ}
    (h : RenderTarget.apply call s.renderer.pass.target = .ok (node, target)) :
    ∃ log, callTarget call ctx s =
      .done node ⟨s.renderer.setTarget target, { s.shared with log := log }⟩ := by
  refine ⟨if ctx.watched then s.shared.log.push (.target call) else s.shared.log, ?_⟩
  simp only [callTarget, h]

theorem renderInstance_eq_done (hroot : spec.root = .opened) {id : ComponentId}
    {r : Option ComponentId} (h : renderInstance id spec before body ctx s = .done r u) :
    r = some id ∧ ∃ (inner : Context) (s₁ s₂ s₃ s₄ : RenderState τ) (root : Option NodeId),
      before inner ⟨s.renderer.enqueue id, { s.shared with
        registry := s.shared.registry.update id Component.countRender }⟩ = .done () s₁ ∧
      openElement spec.name spec.key inner s₁ = .done root s₂ ∧
      body inner s₂ = .done () s₃ ∧
      emit .closeElement inner s₃ = .done () s₄ ∧
      (∀ node, root = some node → attach id node ctx s₄ = .done () u) := by
  obtain ⟨_, _, hqueue, h⟩ := bind_eq_done.1 h
  cases hqueue
  obtain ⟨_, _, hcontext, h⟩ := bind_eq_done.1 h
  cases hcontext
  split at h
  · cases h
  obtain ⟨_, _, hcount, h⟩ := bind_eq_done.1 h
  cases hcount
  obtain ⟨root, s₄, hrender, h⟩ := bind_eq_done.1 h
  obtain ⟨_, s₁, hbefore, hrender⟩ := bind_eq_done.1 hrender
  rw [hroot] at hrender
  obtain ⟨opened, s₂, hopen, hrender⟩ := bind_eq_done.1 hrender
  obtain ⟨_, s₃, hbody, hrender⟩ := bind_eq_done.1 hrender
  obtain ⟨_, _, hclose, hrender⟩ := bind_eq_done.1 hrender
  cases hrender
  cases opened with
  | none =>
    cases h
    exact ⟨rfl, _, s₁, s₂, s₃, _, none, hbefore, hopen, hbody, hclose, by simp⟩
  | some node =>
    obtain ⟨_, _, hattach, h⟩ := bind_eq_done.1 h
    cases h
    refine ⟨rfl, _, s₁, s₂, s₃, _, some node, hbefore, hopen, hbody, hclose, ?_⟩
    rintro _ ⟨⟩
    exact hattach

section Bare

variable (hl : s.renderer.layers.length = 0)
include hl

theorem emit?_run (call : TargetCall) : emit? call ctx s = callTarget call ctx s := by
  have hkind : s.renderer.kind = .default := by
    rw [Renderer.kind, List.eq_nil_of_length_eq_zero hl]
  simp only [emit?, bind_run, renderer, hkind]

theorem openElement_run (name key : String) : openElement name key ctx s =
    callTarget (.openElement name (Key.encode (.text key) ++ s.renderer.currentKey)) ctx s := by
  have hkey : s.renderer.newKey (.text key) = Key.encode (.text key) ++ s.renderer.currentKey := by
    simp [Renderer.newKey, Renderer.currentKey, Renderer.keys?, List.eq_nil_of_length_eq_zero hl,
      Key.Stack.newKey]
  rw [← hkey, ← emit?_run hl]
  rfl

theorem findComponent?_run (type : ComponentType) (key : String) :
    findComponent? type key ctx s =
      .done (findAttached? (RenderTarget.document s.renderer.pass.target) s.shared.registry type key
        ((RenderTarget.document s.renderer.pass.target).siblingsFrom
          (RenderTarget.pointer? s.renderer.pass.target))) s := by
  have htarget : s.renderer.target? = some s.renderer.pass.target :=
    Renderer.target?_eq_some_iff.2 ⟨hl, rfl⟩
  simp only [findComponent?, bind_run, state, htarget, pure_run]

theorem renderComponent_eq_done (hroot : spec.root = .opened) {id : ComponentId}
    (h : renderComponent spec before body ctx s = .done (some id) u) :
    ∃ g, renderInstance id spec before body ctx { s with shared := { s.shared with registry := g } } =
        .done (some id) u ∧
      (findComponent? spec.type (Key.encode spec.first ++ s.renderer.currentKey) ctx s =
          .done (some id) s ∧ g = s.shared.registry ∨
        findComponent? spec.type (Key.encode spec.first ++ s.renderer.currentKey) ctx s =
          .done none s ∧ id = s.shared.registry.components.size ∧
          ∃ label, g = (s.shared.registry.create
            (.new spec.type (Key.encode spec.first ++ s.renderer.currentKey) label)).2) := by
  have hkind : s.renderer.kind ≠ .probe := by
    simp [Renderer.kind, List.eq_nil_of_length_eq_zero hl]
  obtain ⟨_, _, hrenderer, h⟩ := bind_eq_done.1 h
  cases hrenderer
  rw [if_neg hkind] at h
  obtain ⟨found, s', hfind, h⟩ := bind_eq_done.1 h
  obtain rfl : s' = s := by
    rw [findComponent?_run hl] at hfind
    cases hfind
    rfl
  cases found with
  | some id' =>
    obtain ⟨hid, -⟩ := renderInstance_eq_done hroot h
    cases hid
    exact ⟨_, h, .inl ⟨hfind, rfl⟩⟩
  | none =>
    obtain ⟨_, _, hcreate, h⟩ := bind_eq_done.1 h
    obtain ⟨hid, -⟩ := renderInstance_eq_done hroot h
    rw [Stable.createComponent_run] at hcreate
    cases hcreate
    cases hid
    exact ⟨_, h, .inr ⟨hfind, rfl, _, rfl⟩⟩

end Bare

end KeyedRender.RenderM
