import KeyedRender.Proofs.Render.Sounding

/-!
# The ground of a rendering

What is known of the target under a rendering whose voice is to be heard, and of the state that it
is in: how many layers lie over the ground, and, where nothing can break, that no component is
entered while it is rendering. Components are always new there, and one becomes known when it has
been rendered; where known components may be queued, none of them is rendering.
-/
namespace KeyedRender

open RenderTarget (apply document withDocument)

/-- Where a script is rendered: whether calls can reach the target, what holds of it then, whether a
call may break, and whether known components may be queued. An element that has just been opened is
empty. -/
structure Ground (τ : Type) [RenderTarget τ] where
  covered : Bool
  mayBreak : Prop
  requeues : Prop
  holds : τ → Prop
  opened : NodeId → τ → Prop
  calls : covered = false → ∀ {t call}, call.IsInner → holds t →
    Allows (fun _ => mayBreak) (fun r => holds r.2) (apply call t)
  opens : covered = false → ∀ {t} name key, holds t →
    Allows (fun _ => mayBreak) (fun r => ∀ node, r.1 = some node → opened node r.2)
      (apply (.openElement name key) t)
  assigns : covered = false → ∀ {t node} name value, holds t → opened node t →
    Allows (fun _ => mayBreak) (fun r => opened node r.2) (apply (.setAttribute name value) t)
  empty : covered = false → ∀ {t node}, holds t → opened node t →
    RenderTarget.hasContent t node = .ok false
  inspects : covered = false → ∀ {t} node, holds t →
    Allows (fun _ => mayBreak) (fun _ => True) (RenderM.inspectTarget t node)
  records : covered = false → ∀ {t} node change, holds t →
    holds (withDocument t ((document t).updateRecord node change))
  attaches : covered = false → ∀ {t} id c root, holds t →
    holds (withDocument t (attachedDocument (document t) id c root))
  pointer : covered = false → ∀ {t}, holds t → ¬ mayBreak → RenderTarget.pointer? t = none

/-- The components that are rendering have been created, and those that were so when the pass began
are not queued. They are not known yet, if that matters. -/
structure Apart (requeues : Prop) (base rendering : List ComponentId) (g : Registry)
    (queue : List ComponentId) : Prop where
  base_subset : base ⊆ rendering
  created : ∀ id ∈ rendering, id < g.components.size
  unknown : requeues → ∀ id ∈ rendering, id ∉ g.known
  known_lt : requeues → ∀ id ∈ g.known, id < g.components.size
  unqueued : ∀ id ∈ queue, id ∉ base

namespace Apart

variable {requeues : Prop} {base rendering queue : List ComponentId} {g g' : Registry}

theorem congr (h : Apart requeues base rendering g queue)
    (hsize : g.components.size ≤ g'.components.size) (hknown : g'.known = g.known) :
    Apart requeues base rendering g' queue where
  base_subset := h.base_subset
  created id hid := Nat.lt_of_lt_of_le (h.created id hid) hsize
  unknown hr := hknown ▸ h.unknown hr
  known_lt hr id hid := Nat.lt_of_lt_of_le (h.known_lt hr id (hknown ▸ hid)) hsize
  unqueued := h.unqueued

theorem enqueue (h : Apart requeues base rendering g queue) {id : ComponentId}
    (hid : id ∉ rendering) : Apart requeues base rendering g (queue ++ [id]) where
  base_subset := h.base_subset
  created := h.created
  unknown := h.unknown
  known_lt := h.known_lt
  unqueued other hother := by
    rcases List.mem_append.1 hother with hother | hother
    · exact h.unqueued other hother
    · obtain rfl := List.mem_singleton.1 hother
      exact fun hmem => hid (h.base_subset hmem)

theorem create (h : Apart requeues base rendering g queue) (c : Component) :
    Apart requeues base (g.components.size :: rendering)
      ((g.create c).2.update g.components.size Component.countRender) queue := by
  have hsize : ((g.create c).2.update g.components.size Component.countRender).components.size =
      g.components.size + 1 := by simp [Registry.update, Registry.create]
  refine ⟨fun id hid => List.mem_cons_of_mem _ (h.base_subset hid), fun id hid => ?_,
    fun hr id hid => ?_, fun hr id hid => ?_, h.unqueued⟩
  · rw [hsize]
    rcases List.mem_cons.1 hid with rfl | hid
    · exact Nat.lt_succ_self _
    · exact Nat.lt_succ_of_lt (h.created id hid)
  · rcases List.mem_cons.1 hid with rfl | hid
    · exact fun hmem => Nat.lt_irrefl _ (h.known_lt hr _ hmem)
    · exact h.unknown hr id hid
  · rw [hsize]
    exact Nat.lt_succ_of_lt (h.known_lt hr id hid)

theorem leave {id : ComponentId} (h : Apart requeues base (id :: rendering) g queue)
    (hbase : base ⊆ rendering) : Apart requeues base rendering g queue :=
  ⟨hbase, fun other hother => h.created other (List.mem_cons_of_mem _ hother),
    fun hr other hother => h.unknown hr other (List.mem_cons_of_mem _ hother), h.known_lt,
    h.unqueued⟩

theorem learn (h : Apart requeues base rendering g queue) {id : ComponentId}
    (hid : id ∉ rendering) (hlt : id < g.components.size) :
    Apart requeues base rendering (g.learn id) queue := by
  by_cases hmem : id ∈ g.known
  · rw [Registry.learn, if_pos hmem]
    exact h
  · rw [Registry.learn, if_neg hmem]
    refine ⟨h.base_subset, h.created, fun hr other hother hknown => ?_, fun hr other hother => ?_,
      h.unqueued⟩
    · rcases List.mem_append.1 hknown with hknown | hknown
      · exact h.unknown hr other hother hknown
      · obtain rfl := List.mem_singleton.1 hknown
        exact hid hother
    · rcases List.mem_append.1 hother with hother | hother
      · exact h.known_lt hr other hother
      · obtain rfl := List.mem_singleton.1 hother
        exact hlt

end Apart

variable {τ : Type} [RenderTarget τ]

structure Ground.On (G : Ground τ) (base : List ComponentId) (n : Nat)
    (rendering : List ComponentId) (s : RenderState τ) : Prop where
  layers : s.renderer.layers.length = if G.covered then n + 1 else n
  target : G.holds s.renderer.pass.target
  apart : G.mayBreak ∨ Apart G.requeues base rendering s.shared.registry s.renderer.pass.queue

namespace Ground.On

variable {G : Ground τ} {base rendering : List ComponentId} {n : Nat} {s : RenderState τ}

theorem spoken (h : G.On base n rendering s) : G.covered = true → s.renderer.layers ≠ [] := by
  intro hc hl
  have hlayers := h.layers
  simp [hc, hl] at hlayers

theorem congr {t : RenderState τ} (h : G.On base n rendering s)
    (hlayers : t.renderer.layers.length = s.renderer.layers.length)
    (htarget : G.holds t.renderer.pass.target)
    (hregistry : t.shared.registry = s.shared.registry)
    (hqueue : t.renderer.pass.queue = s.renderer.pass.queue) : G.On base n rendering t := by
  refine ⟨hlayers.trans h.layers, htarget, ?_⟩
  rw [hregistry, hqueue]
  exact h.apart

theorem changeShared (h : G.On base n rendering s) {sh : Shared}
    (hsh : sh.registry = s.shared.registry) :
    G.On base n rendering { s with shared := sh } := h.congr rfl h.target hsh rfl

theorem setTarget (h : G.On base n rendering s) {target : τ} (ht : G.holds target)
    (log : Array Event) :
    G.On base n rendering ⟨s.renderer.setTarget target, { s.shared with log := log }⟩ :=
  h.congr rfl ht rfl rfl

theorem enqueue (h : G.On base n rendering s) {id : ComponentId}
    (hid : G.mayBreak ∨ id ∉ rendering) :
    G.On base n rendering { s with renderer := s.renderer.enqueue id } := by
  refine ⟨by rw [Renderer.layers_enqueue]; exact h.layers,
    by rw [Renderer.target_enqueue]; exact h.target, ?_⟩
  rcases h.apart with hb | hapart
  · exact .inl hb
  rcases hid with hb | hid
  · exact .inl hb
  refine .inr ?_
  simp only [Renderer.enqueue]
  split
  · exact hapart.enqueue hid
  · exact hapart

theorem uncovered (h : G.On base n rendering s) (hl : s.renderer.layers = []) :
    G.covered = false := by
  cases hc : G.covered with
  | true => exact absurd hl (h.spoken hc)
  | false => rfl

theorem attach (h : G.On base n rendering s) (id : ComponentId) (root : NodeId) (ctx : Context) :
    ∃ t, RenderM.attach id root ctx s = .done () t ∧ G.On base n rendering t ∧
      t.voice G.covered = s.voice G.covered := by
  rcases RenderM.attach_cases id root ctx s with hrun | ⟨hl, c, -, hrun⟩
  · exact ⟨s, hrun, h, rfl⟩
  · refine ⟨_, hrun, ⟨h.layers, G.attaches (h.uncovered hl) id c root h.target, ?_⟩, rfl⟩
    refine h.apart.imp_right fun hapart => hapart.congr ?_ ?_
    · simp only [Shared.changeRegistry, attachedRegistry]
      split
      · exact Nat.le_of_eq (Registry.size_update ..).symm
      · exact Nat.le_refl _
    · simp only [Shared.changeRegistry, attachedRegistry]
      split <;> rfl

theorem leave {id : ComponentId} {t : RenderState τ} (h : G.On base n rendering s)
    (ht : G.On base n (id :: rendering) t) : G.On base n rendering t := by
  refine ⟨ht.layers, ht.target, ?_⟩
  rcases h.apart with hb | hapart
  · exact .inl hb
  · exact ht.apart.imp_right fun hinside => hinside.leave hapart.base_subset

theorem learn {id : ComponentId} {t : RenderState τ} (h : G.On base n rendering s)
    (ht : G.On base n (id :: rendering) t) (hid : G.mayBreak ∨ id ∉ rendering) :
    G.On base n rendering { t with shared := t.shared.changeRegistry (·.learn id) } := by
  refine ⟨ht.layers, ht.target, ?_⟩
  rcases ht.apart with hb | hinside
  · exact .inl hb
  rcases (h.leave ht).apart with hb | hapart
  · exact .inl hb
  exact hid.imp_right fun hid =>
    hapart.learn hid (hinside.created id (List.mem_cons_self ..))

theorem callTarget (h : G.On base n rendering s) {call : TargetCall}
    (hcalls : Allows (fun _ => G.mayBreak) (fun r => G.holds r.2)
      (apply call s.renderer.pass.target)) (ctx : Context) :
    (∃ node t, RenderM.callTarget call ctx s = .done node t ∧ G.On base n rendering t ∧
      t.voice G.covered = s.voice G.covered ∧ t.renderer.layers = s.renderer.layers ∧
      apply call s.renderer.pass.target = .ok (node, t.renderer.pass.target)) ∨
    G.mayBreak ∧ ∃ f, RenderM.callTarget call ctx s = .broken f := by
  cases hrun : apply call s.renderer.pass.target with
  | error f =>
    rw [hrun] at hcalls
    exact .inr ⟨hcalls, f, by simp only [RenderM.callTarget, hrun]⟩
  | ok r =>
    obtain ⟨node, target⟩ := r
    rw [hrun] at hcalls
    obtain ⟨log, hcall, hvoice⟩ := RenderM.callTarget_voice ctx hrun
    exact .inl ⟨node, _, hcall, h.setTarget hcalls log, congrArg (RenderState.mk _) hvoice, rfl, rfl⟩

end Ground.On

end KeyedRender
