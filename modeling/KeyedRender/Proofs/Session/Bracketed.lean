import KeyedRender.Proofs.Render.Registry
import KeyedRender.Proofs.Script.Plan
import KeyedRender.Proofs.Session.Reached

/-!
# The ends of a pass

What a pass does around its template: it begins and ends on the target, and at last it tells the
components that wait in the queue.
-/
namespace KeyedRender

theorem RenderM.synchronizeAll_run {τ : Type} {ctx : Context} (hctx : ctx.rendering = [])
    (ids : List ComponentId) (s : RenderState τ) :
    ∃ g log, s.shared.registry.Recounts g ∧ calls log = calls s.shared.log ∧
      synchronizeAll ids ctx s =
        .done () { s with shared := { s.shared with registry := g, log := log } } := by
  induction ids generalizing s with
  | nil => exact ⟨_, _, .refl _, rfl, rfl⟩
  | cons id rest ih =>
    obtain ⟨g, log, hg, hcalls, hrun⟩ := ih { s with shared := { s.shared with
      registry := s.shared.registry.update id Component.synchronize
      log := s.shared.log.push (.synchronized id) } }
    have hnot : id ∉ ctx.rendering := by simp [hctx]
    refine ⟨g, log, (Registry.Recounts.synchronize _ id).trans hg,
      hcalls.trans (calls_push_of_none rfl _), ?_⟩
    simp only [synchronizeAll, bind_run, context, if_neg hnot]
    exact hrun

namespace Session

open RenderM (bind_eq_done)

variable {s : Session KeyedDom} {root : NodeId} {rule : Key.MatchRule}
  {t₀ t₁ t' : KeyedDom} {k : Keyring} {m : RenderM KeyedDom Unit}

theorem bracketed_of_run (settings : Settings) (logger : Option LoggerId)
    (hbegin : s.target.beginPatch root .inner rule = .ok t₀) (hend : t₁.endPatch = .ok t') :
    ∃ log, calls log = [] ∧ ∀ {queue g log₁},
      m (context settings) (Stage.state ⟨t₀, ⟨.empty, []⟩⟩ logger [] s.registry log) =
        .done () (Stage.state ⟨t₁, k⟩ logger queue g log₁) →
      ∃ log₂, calls log₂ = calls log₁ ∧
        RenderM.bracketed root .inner rule logger m (context settings) s.initial =
          .done () (Stage.state ⟨t', k⟩ logger queue g log₂) := by
  have hcall : KeyedDom.apply (.beginPatch root .inner rule) s.target = .ok (none, t₀) := by
    simp only [KeyedDom.apply, hbegin, Except.map]
  have hcall' : KeyedDom.apply .endPatch t₁ = .ok (none, t') := by
    simp only [KeyedDom.apply, hend, Except.map]
  obtain ⟨log, hcalls, hbegun⟩ :=
    Brings.callTarget (k := ⟨.empty, []⟩) _ hcall (context settings) none [] s.registry #[]
  refine ⟨log, hcalls, fun {queue g log₁} hrun => ?_⟩
  obtain ⟨log₂, hcalls', hended⟩ :=
    Brings.callTarget (k := k) _ hcall' (context settings) logger queue g log₁
  have htemplate : RenderM.attempt m (context settings)
      (Stage.state ⟨t₀, ⟨.empty, []⟩⟩ logger [] s.registry log) =
      .done (.ok ()) (Stage.state ⟨t₁, k⟩ logger queue g log₁) := by
    simp only [RenderM.attempt, hrun]
  exact ⟨log₂, hcalls', bind_eq_done.2 ⟨_, _, hbegun, bind_eq_done.2 ⟨_, _, rfl,
    bind_eq_done.2 ⟨_, _, htemplate, bind_eq_done.2 ⟨_, _, hended, rfl⟩⟩⟩⟩⟩

end Session

end KeyedRender
