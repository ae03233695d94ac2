import KeyedRender.Render.Calls

/-!
# Conditions before and after a rendering

A triple says what a rendering does to the target and the registry, however it ends. The number
of layers over the pass is the same before and after. A rendering that fails leaves a condition
of its own, and one that breaks does so with a fault that is allowed.
-/
namespace KeyedRender

abbrev Condition (τ : Type) : Type := τ → Registry → Prop

structure Exits (τ : Type) where
  fault : Fault → Prop
  layers : Nat
  failed : Condition τ

section

variable {τ α β : Type} {x : Exits τ} {P P' : Condition τ} {Q Q' : α → Condition τ}

def Outcome.Meets (x : Exits τ) (Q : α → Condition τ) : Outcome (RenderState τ) α → Prop
  | .done a s => s.renderer.layers.length = x.layers ∧
      Q a s.renderer.pass.target s.shared.registry
  | .failed _ s => s.renderer.layers.length = x.layers ∧
      x.failed s.renderer.pass.target s.shared.registry
  | .broken f => x.fault f

def Triple (x : Exits τ) (P : Condition τ) (m : RenderM τ α) (Q : α → Condition τ) : Prop :=
  ∀ ctx s, s.renderer.layers.length = x.layers →
    P s.renderer.pass.target s.shared.registry → (m ctx s).Meets x Q

theorem Outcome.Meets.mono {o : Outcome (RenderState τ) α} (h : o.Meets x Q)
    (hQ : ∀ a t g, Q a t g → Q' a t g) : o.Meets x Q' := by
  cases o with
  | done a s => exact ⟨h.1, hQ _ _ _ h.2⟩
  | failed e s => exact h
  | broken f => exact h

namespace Triple

open RenderM

theorem post {m : RenderM τ α} (h : Triple x P m Q) (hQ : ∀ a t g, Q a t g → Q' a t g) :
    Triple x P m Q' := fun ctx s hl hp => (h ctx s hl hp).mono hQ

theorem pre {m : RenderM τ α} (h : Triple x P m Q) (hP : ∀ t g, P' t g → P t g) :
    Triple x P' m Q := fun ctx s hl hp => h ctx s hl (hP _ _ hp)

theorem failing {m : RenderM τ α} {R : Condition τ} (h : Triple { x with failed := R } P m Q)
    (hR : ∀ t g, R t g → x.failed t g) : Triple x P m Q := by
  intro ctx s hl hp
  have h := h ctx s hl hp
  cases ho : m ctx s with
  | done a t => rwa [ho] at h
  | failed e t =>
    rw [ho] at h
    exact ⟨h.1, hR _ _ h.2⟩
  | broken f => rwa [ho] at h

theorem done {m : RenderM τ α} (h : Triple x P m Q) {ctx : Context} {s u : RenderState τ} {a : α}
    (hl : s.renderer.layers.length = x.layers)
    (hp : P s.renderer.pass.target s.shared.registry) (ho : m ctx s = .done a u) :
    u.renderer.layers.length = x.layers ∧ Q a u.renderer.pass.target u.shared.registry := by
  have hmeets := h ctx s hl hp
  rwa [ho] at hmeets

theorem assuming {c : Prop} {m : RenderM τ α} (hc : ∀ t g, P t g → c)
    (h : c → Triple x P m Q) : Triple x P m Q := fun ctx s hl hp => h (hc _ _ hp) ctx s hl hp

theorem pure {a : α} (h : ∀ t g, P t g → Q a t g) : Triple x P (Pure.pure a) Q :=
  fun _ _ hl hp => ⟨hl, h _ _ hp⟩

theorem bind {m : RenderM τ α} {next : α → RenderM τ β} {Q' : β → Condition τ}
    (hm : Triple x P m Q) (hn : ∀ a, Triple x (Q a) (next a) Q') : Triple x P (m >>= next) Q' := by
  intro ctx s hl hp
  have hm := hm ctx s hl hp
  rw [bind_run]
  cases ho : m ctx s with
  | done a t =>
    rw [ho] at hm
    exact hn a ctx t hm.1 hm.2
  | failed e t => rwa [ho] at hm
  | broken f => rwa [ho] at hm

theorem fail {e : RenderError} (h : ∀ t g, P t g → x.failed t g) :
    Triple x P (RenderM.fail e : RenderM τ α) Q := fun _ _ hl hp => ⟨hl, h _ _ hp⟩

theorem breakWith {f : Fault} (h : x.fault f) :
    Triple x P (RenderM.breakWith f : RenderM τ α) Q := fun _ _ _ _ => h

theorem breakIf {c : Prop} [Decidable c] {f : Fault} {next : PUnit → RenderM τ α} (hf : x.fault f)
    (h : Triple x P (next ⟨⟩) Q) :
    Triple x P (if c then RenderM.breakWith f >>= next else next ⟨⟩) Q := by
  split
  · exact bind (breakWith hf) fun _ => h
  · exact h

theorem withContext {m : RenderM τ α} (h : Triple x P m Q) (change : Context → Context) :
    Triple x P (RenderM.withContext change m) Q := fun ctx s hl hp => h (change ctx) s hl hp

theorem context : Triple x P RenderM.context fun _ => P := fun _ _ hl hp => ⟨hl, hp⟩

theorem bind_renderer {next : Renderer τ → RenderM τ α}
    (h : ∀ r : Renderer τ, r.layers.length = x.layers →
      Triple x (fun t g => t = r.pass.target ∧ P t g) (next r) Q) :
    Triple x P (renderer >>= next) Q := fun ctx s hl hp => h s.renderer hl ctx s hl ⟨rfl, hp⟩

theorem bind_state {next : RenderState τ → RenderM τ α}
    (h : ∀ s : RenderState τ, s.renderer.layers.length = x.layers →
      Triple x (fun t g => t = s.renderer.pass.target ∧ g = s.shared.registry ∧ P t g) (next s) Q) :
    Triple x P (state >>= next) Q := fun ctx s hl hp => h s hl ctx s hl ⟨rfl, rfl, hp⟩

theorem changeRenderer {change : Renderer τ → Renderer τ}
    (hl : ∀ r, (change r).layers.length = r.layers.length)
    (ht : ∀ r, (change r).pass.target = r.pass.target) :
    Triple x P (RenderM.changeRenderer change) fun _ => P := by
  intro ctx s hls hp
  refine ⟨(hl s.renderer).trans hls, ?_⟩
  simpa only [ht] using hp

theorem changeShared {change : Shared → Shared} (h : ∀ s, (change s).registry = s.registry) :
    Triple x P (RenderM.changeShared change) fun _ => P := by
  intro ctx s hl hp
  refine ⟨hl, ?_⟩
  simpa only [h] using hp

theorem changeRegistry {change : Registry → Registry} {Q : Unit → Condition τ}
    (h : ∀ t g, P t g → Q () t (change g)) : Triple x P (RenderM.changeRegistry change) Q :=
  fun _ _ hl hp => ⟨hl, h _ _ hp⟩

theorem log {event : Event} : Triple x P (RenderM.log event) fun _ => P :=
  changeShared fun _ => rfl

theorem attempt {m : RenderM τ α} {R : Condition τ} (h : Triple { x with failed := R } P m Q) :
    Triple x P (RenderM.attempt m) fun result => match result with
      | .ok a => Q a
      | .error _ => R := by
  intro ctx s hl hp
  have h := h ctx s hl hp
  unfold RenderM.attempt
  cases ho : m ctx s with
  | done a t => rwa [ho] at h
  | failed e t => rwa [ho] at h
  | broken f => rwa [ho] at h

theorem layered {layer : Layer} {m : RenderM τ α} {R : Condition τ}
    (h : Triple ⟨x.fault, x.layers + 1, R⟩ P m Q) :
    Triple x P (RenderM.layered layer m) fun result => match result.1 with
      | .ok a => Q a
      | .error _ => R := by
  intro ctx s hl hp
  have h := h ctx { s with renderer := s.renderer.push layer }
    (by simp [Renderer.push, hl]) hp
  have pop : ∀ t : RenderState τ, t.renderer.layers.length = x.layers + 1 →
      t.renderer.pop.layers.length = x.layers := fun t ht => by simp [Renderer.pop, ht]
  simp only [RenderM.layered, bind_run, RenderM.changeRenderer, RenderM.attempt, RenderM.renderer,
    pure_run]
  cases ho : m ctx { s with renderer := s.renderer.push layer } with
  | done a t =>
    rw [ho] at h
    exact ⟨pop t h.1, h.2⟩
  | failed e t =>
    rw [ho] at h
    exact ⟨pop t h.1, h.2⟩
  | broken f => rwa [ho] at h

theorem detour [RenderTarget τ] {σ : Type} {start : Renderer σ} {m : RenderM σ α}
    {Q : α × Renderer σ → Condition τ}
    (h : ∀ t g, P t g → ∃ (I : Condition σ),
      Triple ⟨x.fault, start.layers.length, I⟩ (fun w g' => w = start.pass.target ∧ g' = g) m
        (fun _ => I) ∧
      ∀ w g', I w g' → x.failed t g' ∧ ∀ result, Q result t g') :
    Triple x P (RenderM.detour start m) Q := by
  intro ctx s hl hp
  obtain ⟨I, hm, hI⟩ := h _ _ hp
  have hm := hm { ctx with watched := false, pinned := s.renderer.held ++ ctx.pinned }
    ⟨start, s.shared⟩ rfl ⟨rfl, rfl⟩
  unfold RenderM.detour
  dsimp only
  split
  · next a t ho =>
    rw [ho] at hm
    exact ⟨hl, (hI _ _ hm.2).2 _⟩
  · next e t ho =>
    rw [ho] at hm
    exact ⟨hl, (hI _ _ hm.2).1⟩
  · next f ho => rwa [ho] at hm

end Triple

end

end KeyedRender
