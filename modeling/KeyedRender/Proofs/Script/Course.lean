import KeyedRender.Proofs.Script.Moments

/-!
# Relations along a course

A course relates the states before and after a part of a run, given the moments in between. It is
composed as the parts are.
-/
namespace KeyedRender

namespace Outcome

variable {σ α : Type} [DecidableEq α]

def yields (a : α) : Outcome σ α → Bool
  | .done b _ => b = a
  | _ => false

theorem done_of_yields {a : α} {o : Outcome σ α} (h : o.yields a = true) : ∃ s, o = .done a s := by
  unfold yields at h
  split at h
  · next b s => exact ⟨s, by rw [of_decide_eq_true h]⟩
  · cases h

end Outcome

namespace Outcome.EndsIn

variable {τ α β : Type} {ctx : Context} {s u : RenderState τ}

theorem done_iff {σ : Type} {a : α} {t u : σ} : (Outcome.done a t).EndsIn u ↔ t = u := by
  simp [Outcome.EndsIn]

theorem failed_iff {σ : Type} {e : RenderError} {t u : σ} :
    (Outcome.failed e t : Outcome σ α).EndsIn u ↔ t = u := by
  simp [Outcome.EndsIn]

theorem not_broken {σ : Type} {f : Fault} {u : σ} :
    ¬ (Outcome.broken f : Outcome σ α).EndsIn u := by
  simp [Outcome.EndsIn]

theorem bind_iff {m : RenderM τ α} {next : α → RenderM τ β} :
    ((m >>= next) ctx s).EndsIn u ↔
      (∃ e, m ctx s = .failed e u) ∨ ∃ a t, m ctx s = .done a t ∧ (next a ctx t).EndsIn u := by
  rw [RenderM.bind_run]
  cases m ctx s with
  | done a t =>
    refine ⟨fun h => .inr ⟨a, t, rfl, h⟩, ?_⟩
    rintro (⟨e, ⟨⟩⟩ | ⟨_, _, ⟨⟩, h⟩)
    exact h
  | failed e t => simp [failed_iff]
  | broken f => simp [not_broken]

theorem returning_iff {m : RenderM τ α} {f : α → β} :
    ((m >>= fun a => pure (f a)) ctx s).EndsIn u ↔ (m ctx s).EndsIn u := by
  rw [RenderM.bind_run]
  cases m ctx s with
  | done a t => simp [RenderM.pure_run, done_iff]
  | failed e t => simp [failed_iff]
  | broken f => simp [not_broken]

theorem unique {σ : Type} {o : Outcome σ α} {t u : σ} (ht : o.EndsIn t) (hu : o.EndsIn u) :
    t = u := by
  rcases ht with ⟨a, rfl⟩ | ⟨e, rfl⟩
  · exact done_iff.1 hu
  · exact failed_iff.1 hu

theorem of_attempt {m : RenderM τ α} (h : (RenderM.attempt m ctx s).EndsIn u) :
    (m ctx s).EndsIn u := by
  unfold RenderM.attempt at h
  cases ho : m ctx s with
  | done a t =>
    rw [ho] at h
    exact .inl ⟨a, congrArg _ (done_iff.1 h)⟩
  | failed e t =>
    rw [ho] at h
    exact .inr ⟨e, congrArg _ (done_iff.1 h)⟩
  | broken f =>
    rw [ho] at h
    exact absurd h not_broken

end Outcome.EndsIn

section

variable {τ α : Type}

structure Course (R : List (Moment τ) → RenderState τ → RenderState τ → Prop) : Prop where
  refl : ∀ s, R [] s s
  append : ∀ {ms ms' s t u}, R ms s t → R ms' t u → R (ms ++ ms') s u

/-- A course that goes by the target: what leaves the target alone keeps to it. -/
structure TargetCourse (R : List (Moment τ) → RenderState τ → RenderState τ → Prop) : Prop
    extends Course R where
  same : ∀ {s t}, t.renderer.pass.target = s.renderer.pass.target → R [] s t

/-- A rendering is on the course from every state, however it ends, with the moments given. -/
def Traces (watched : Bool) (R : List (Moment τ) → RenderState τ → RenderState τ → Prop)
    (m : RenderM τ α) (ms : Moments τ) : Prop :=
  ∀ ctx s t, ctx.watched = watched → (m ctx s).EndsIn t → R (ms ctx s) s t

end

namespace Traces

open RenderM

variable {τ α β : Type} {w : Bool}
  {R : List (Moment τ) → RenderState τ → RenderState τ → Prop} {m : RenderM τ α}
  {next : α → RenderM τ β} {ms : Moments τ}

section Course

variable (h : Course R)
include h

theorem pure (a : α) : Traces w R (Pure.pure a) .none := by
  intro ctx s t _ ht
  obtain rfl := Outcome.EndsIn.done_iff.1 ht
  exact h.refl s

theorem fail (e : RenderError) : Traces w R (RenderM.fail e : RenderM τ α) .none := by
  intro ctx s t _ ht
  obtain rfl := Outcome.EndsIn.failed_iff.1 ht
  exact h.refl s

omit h in
theorem breakWith (f : Fault) : Traces w R (RenderM.breakWith f : RenderM τ α) .none :=
  fun _ _ _ _ ht => absurd ht Outcome.EndsIn.not_broken

theorem bind {ms' : α → Moments τ} (hm : Traces w R m ms) (hn : ∀ a, Traces w R (next a) (ms' a)) :
    Traces w R (m >>= next) fun ctx s => ms ctx s ++ Moments.after m ms' ctx s := by
  intro ctx s u hw hu
  rcases Outcome.EndsIn.bind_iff.1 hu with ⟨e, he⟩ | ⟨a, t, ha, hu⟩
  · have hempty : Moments.after m ms' ctx s = [] := by rw [Moments.after, he]
    simp only [hempty, List.append_nil]
    exact hm ctx s u hw (.inr ⟨e, he⟩)
  · have hafter : Moments.after m ms' ctx s = ms' a ctx t := by rw [Moments.after, ha]
    simp only [hafter]
    exact h.append (hm ctx s t hw (.inl ⟨a, ha⟩)) (hn a ctx t u hw hu)

theorem after {ms' : α → Moments τ} (hm : Traces w R m .none)
    (hn : ∀ a, Traces w R (next a) (ms' a)) : Traces w R (m >>= next) (.after m ms') := by
  have hbind := bind h hm hn
  exact hbind

omit h in
theorem after_none (m : RenderM τ α) : Moments.after m (fun _ => .none) = .none := by
  funext ctx s
  unfold Moments.after
  split <;> rfl

theorem before (hm : Traces w R m ms) (hn : ∀ a, Traces w R (next a) .none) :
    Traces w R (m >>= next) ms := by
  have hbind := bind h hm hn
  simpa only [after_none, Moments.none, List.append_nil] using hbind

theorem reading {a : RenderState τ → α} {read : RenderM τ α}
    (hread : ∀ ctx s, read ctx s = .done (a s) s) (hn : ∀ a, Traces w R (next a) .none) :
    Traces w R (read >>= next) .none := by
  refine before h (fun ctx s t _ ht => ?_) hn
  rw [hread] at ht
  obtain rfl := Outcome.EndsIn.done_iff.1 ht
  exact h.refl s

theorem state {next : RenderState τ → RenderM τ β} (hn : ∀ s, Traces w R (next s) .none) :
    Traces w R (RenderM.state >>= next) .none := reading h (fun _ _ => rfl) hn

theorem renderer {next : Renderer τ → RenderM τ β} (hn : ∀ r, Traces w R (next r) .none) :
    Traces w R (RenderM.renderer >>= next) .none := reading h (fun _ _ => rfl) hn

theorem context {next : Context → RenderM τ β} (hn : ∀ c, Traces w R (next c) .none) :
    Traces w R (RenderM.context >>= next) .none := by
  refine before h (fun ctx s t _ ht => ?_) hn
  obtain rfl := Outcome.EndsIn.done_iff.1 ht
  exact h.refl s

theorem resume (result : Except RenderError α) : Traces w R (RenderM.resume result) .none := by
  cases result with
  | ok a => exact pure h a
  | error e => exact fail h e

theorem returning {f : α → β} (hm : Traces w R m ms) :
    Traces w R (m >>= fun a => Pure.pure (f a)) ms := before h hm fun _ => pure h _

end Course

theorem attempt (hm : Traces w R m ms) : Traces w R (RenderM.attempt m) ms :=
  fun ctx s t hw ht => hm ctx s t hw ht.of_attempt

theorem withContext (hm : Traces w R m ms) (change : Context → Context)
    (hc : ∀ ctx, (change ctx).watched = ctx.watched) :
    Traces w R (RenderM.withContext change m) (ms.within change) :=
  fun ctx s t hw ht => hm (change ctx) s t ((hc ctx).trans hw) ht

end Traces

namespace TargetCourse

variable {τ : Type} {w : Bool} {R : List (Moment τ) → RenderState τ → RenderState τ → Prop}
  (h : TargetCourse R)
include h

theorem changeRenderer {change : Renderer τ → Renderer τ}
    (hc : ∀ r, (change r).pass.target = r.pass.target) :
    Traces w R (RenderM.changeRenderer change) .none := by
  intro ctx s t _ ht
  obtain rfl := Outcome.EndsIn.done_iff.1 ht
  exact h.same (hc s.renderer)

theorem changeShared (change : Shared → Shared) :
    Traces w R (RenderM.changeShared change) .none := by
  intro ctx s t _ ht
  obtain rfl := Outcome.EndsIn.done_iff.1 ht
  exact h.same rfl

end TargetCourse


end KeyedRender
