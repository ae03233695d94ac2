import KeyedRender.Script.Run

/-!
# Two renderings side by side

Renderings on two targets, that may be of different kinds, are paired if they go the same way from
related states: both succeed with the same value, both fail with the same error, or both break
with the same fault. The renderers differ in nothing but their targets.
-/
namespace KeyedRender

/-- No answer tells of a node at the pointer. -/
def Event.IsBlind : Event → Prop
  | .answer (.instruction .pointer) (.node (some _)) => False
  | _ => True

def Shared.Blind (sh : Shared) : Prop := ∀ event ∈ sh.log, event.IsBlind

theorem Shared.Blind.push {sh : Shared} (h : sh.Blind) {event : Event} (he : event.IsBlind) :
    Shared.Blind { sh with log := sh.log.push event } := by
  intro other hother
  rcases Array.mem_push.1 hother with hold | rfl
  · exact h other hold
  · exact he

section

variable {τ ρ α β : Type}

namespace Renderer

def on (r : Renderer τ) (target : ρ) : Renderer ρ :=
  ⟨⟨target, r.pass.keys, r.pass.logger, r.pass.queue⟩, r.layers⟩

section

variable (r : Renderer τ) (target : ρ)

@[simp] theorem kind_on : (r.on target).kind = r.kind := rfl

@[simp] theorem layers_on : (r.on target).layers = r.layers := rfl

@[simp] theorem target_on : (r.on target).pass.target = target := rfl

@[simp] theorem keys?_on : (r.on target).keys? = r.keys? := rfl

@[simp] theorem currentKey_on : (r.on target).currentKey = r.currentKey := rfl

@[simp] theorem newKey_on (fragment : Key.Fragment) :
    (r.on target).newKey fragment = r.newKey fragment := rfl

@[simp] theorem logger?_on : (r.on target).logger? = r.logger? := rfl

@[simp] theorem didRender_on : (r.on target).didRender = r.didRender := rfl

theorem target?_on : (r.on target).target? = r.target?.map fun _ => target := by
  obtain ⟨pass, _ | ⟨layer, below⟩⟩ := r <;> rfl

theorem push_on (layer : Layer) : (r.on target).push layer = (r.push layer).on target := rfl

theorem pop_on : (r.on target).pop = r.pop.on target := rfl

theorem changeKeys_on (change : Key.Stack → Key.Stack) :
    (r.on target).changeKeys change = (r.changeKeys change).on target := by
  obtain ⟨pass, _ | ⟨_ | _, below⟩⟩ := r <;> rfl

theorem setLogger_on (logger : Option LoggerId) :
    (r.on target).setLogger logger = (r.setLogger logger).on target := by
  obtain ⟨pass, _ | ⟨_ | _, below⟩⟩ := r <;> rfl

theorem markRendered_on : (r.on target).markRendered = r.markRendered.on target := by
  obtain ⟨pass, _ | ⟨_ | _, below⟩⟩ := r <;> rfl

theorem handBackLogger_on : (r.on target).handBackLogger = r.handBackLogger.on target := by
  obtain ⟨pass, _ | ⟨_ | _, below⟩⟩ := r
  · rfl
  · simp only [handBackLogger, on, push]
    obtain _ | ⟨_ | _, rest⟩ := below <;> rfl
  · rfl

theorem enqueue_on (id : ComponentId) :
    (r.on target).enqueue id = (r.enqueue id).on target := by
  cases h : (r.layers.all Layer.isMuted && !r.pass.queue.contains id) <;>
    simp only [enqueue, on, h, if_true, Bool.false_eq_true, if_false]

end

end Renderer

def Alongside (A : τ → ρ → Prop) (s : RenderState τ) (s' : RenderState ρ) : Prop :=
  s.shared.Blind ∧ ∃ target, A s.renderer.pass.target target ∧
    s' = ⟨s.renderer.on target, s.shared⟩

def BarelyAlongside (A : τ → ρ → Prop) (s : RenderState τ) (s' : RenderState ρ) : Prop :=
  s.renderer.layers = [] ∧ Alongside A s s'

inductive Outcome.Matches {σ σ' : Type} (R : σ → σ' → Prop) (Q : α → σ → σ' → Prop) :
    Outcome σ α → Outcome σ' α → Prop
  | done {a : α} {s : σ} {s' : σ'} : Q a s s' → Matches R Q (.done a s) (.done a s')
  | failed {e : RenderError} {s : σ} {s' : σ'} : R s s' → Matches R Q (.failed e s) (.failed e s')
  | broken {f : Fault} : Matches R Q (.broken f) (.broken f)

/-- From states that are related by `P`, two renderings end with the same value in states that
are related by `Q`, or fail with the same error in states that are related by `R`. -/
def Paired (R P : RenderState τ → RenderState ρ → Prop) (m : RenderM τ α) (m' : RenderM ρ α)
    (Q : α → RenderState τ → RenderState ρ → Prop) : Prop :=
  ∀ ctx s s', P s s' → (m ctx s).Matches R Q (m' ctx s')

abbrev InStep (A : τ → ρ → Prop) (m : RenderM τ α) (m' : RenderM ρ α) : Prop :=
  Paired (Alongside A) (Alongside A) m m' fun _ => Alongside A

namespace Paired

open RenderM

variable {R P P' : RenderState τ → RenderState ρ → Prop} {m : RenderM τ α} {m' : RenderM ρ α}
  {Q Q' : α → RenderState τ → RenderState ρ → Prop}

theorem pure {a : α} (h : ∀ s s', P s s' → Q a s s') :
    Paired R P (Pure.pure a) (Pure.pure a) Q := fun _ s s' hs => .done (h s s' hs)

theorem pre (h : Paired R P m m' Q) (hP : ∀ s s', P' s s' → P s s') : Paired R P' m m' Q :=
  fun ctx s s' hs => h ctx s s' (hP s s' hs)

theorem post (h : Paired R P m m' Q) (hQ : ∀ a s s', Q a s s' → Q' a s s') :
    Paired R P m m' Q' := by
  intro ctx s s' hs
  have hm := h ctx s s' hs
  generalize m ctx s = o at hm
  generalize m' ctx s' = o' at hm
  cases hm with
  | done hq => exact .done (hQ _ _ _ hq)
  | failed hr => exact .failed hr
  | broken => exact .broken

theorem bind {next : α → RenderM τ β} {next' : α → RenderM ρ β}
    {Q' : β → RenderState τ → RenderState ρ → Prop} (hm : Paired R P m m' Q)
    (hn : ∀ a, Paired R (Q a) (next a) (next' a) Q') :
    Paired R P (m >>= next) (m' >>= next') Q' := by
  intro ctx s s' hs
  have hm := hm ctx s s' hs
  rw [bind_run, bind_run]
  generalize m ctx s = o at hm
  generalize m' ctx s' = o' at hm
  cases hm with
  | done hq => exact hn _ ctx _ _ hq
  | failed hr => exact .failed hr
  | broken => exact .broken

theorem fail {e : RenderError} (h : ∀ s s', P s s' → R s s') :
    Paired R P (RenderM.fail e) (RenderM.fail e) Q := fun _ s s' hs => .failed (h s s' hs)

theorem breakThen {f : Fault} {next : α → RenderM τ β} {next' : α → RenderM ρ β}
    {Q : β → RenderState τ → RenderState ρ → Prop} :
    Paired R P (RenderM.breakWith f >>= next) (RenderM.breakWith f >>= next') Q :=
  fun _ _ _ _ => .broken

theorem ite {c : Prop} [Decidable c] {n : RenderM τ α} {n' : RenderM ρ α}
    (hm : Paired R P m m' Q) (hn : Paired R P n n' Q) :
    Paired R P (if c then m else n) (if c then m' else n') Q := by
  split
  · exact hm
  · exact hn

theorem withContext (h : Paired R P m m' Q) (change : Context → Context) :
    Paired R P (RenderM.withContext change m) (RenderM.withContext change m') Q :=
  fun ctx s s' hs => h (change ctx) s s' hs

theorem context {next : Context → RenderM τ α} {next' : Context → RenderM ρ α}
    (h : ∀ c, Paired R P (next c) (next' c) Q) :
    Paired R P (RenderM.context >>= next) (RenderM.context >>= next') Q :=
  fun ctx s s' hs => h ctx ctx s s' hs

theorem attempt {R' : RenderState τ → RenderState ρ → Prop} (h : Paired R P m m' Q) :
    Paired R' P (RenderM.attempt m) (RenderM.attempt m') fun result s s' =>
      match result with
      | .ok a => Q a s s'
      | .error _ => R s s' := by
  intro ctx s s' hs
  have hm := h ctx s s' hs
  unfold RenderM.attempt
  generalize m ctx s = o at hm
  generalize m' ctx s' = o' at hm
  cases hm with
  | done hq => exact .done hq
  | failed hr => exact .done hr
  | broken => exact .broken

theorem resume {result : Except RenderError α} (h : ∀ s s', P s s' → R s s') :
    Paired R P (RenderM.resume result) (RenderM.resume result) fun _ => P := by
  cases result with
  | ok a => exact .pure fun _ _ hs => hs
  | error e => exact .fail h

theorem returning {f : α → β} (h : Paired R P m m' fun _ => P) :
    Paired R P (m >>= fun a => Pure.pure (f a)) (m' >>= fun a => Pure.pure (f a)) fun _ => P :=
  .bind h fun _ => .pure fun _ _ hs => hs

section Alongside

variable {A : τ → ρ → Prop}

theorem renderer {next : Renderer τ → RenderM τ α} {next' : Renderer ρ → RenderM ρ α}
    (h : ∀ r target, A r.pass.target target →
      Paired R (Alongside A) (next r) (next' (r.on target)) Q) :
    Paired R (Alongside A) (RenderM.renderer >>= next) (RenderM.renderer >>= next') Q := by
  rintro ctx s _ ⟨hblind, target, ht, rfl⟩
  exact h s.renderer target ht ctx s _ ⟨hblind, target, ht, rfl⟩

theorem state {next : RenderState τ → RenderM τ α} {next' : RenderState ρ → RenderM ρ α}
    (h : ∀ s target, A s.renderer.pass.target target →
      Paired R (Alongside A) (next s) (next' ⟨s.renderer.on target, s.shared⟩) Q) :
    Paired R (Alongside A) (RenderM.state >>= next) (RenderM.state >>= next') Q := by
  rintro ctx s _ ⟨hblind, target, ht, rfl⟩
  exact h s target ht ctx s _ ⟨hblind, target, ht, rfl⟩

theorem changeRenderer {change : Renderer τ → Renderer τ} {change' : Renderer ρ → Renderer ρ}
    (htarget : ∀ r, (change r).pass.target = r.pass.target)
    (h : ∀ r target, change' (r.on target) = (change r).on target) :
    Paired R (Alongside A) (RenderM.changeRenderer change) (RenderM.changeRenderer change')
      fun _ => Alongside A := by
  rintro ctx s _ ⟨hblind, target, ht, rfl⟩
  refine .done ⟨hblind, target, ?_, ?_⟩
  · rw [htarget]
    exact ht
  · rw [h]

theorem changeShared {change : Shared → Shared} (h : ∀ sh, sh.Blind → (change sh).Blind) :
    Paired R (Alongside A) (RenderM.changeShared change) (RenderM.changeShared change)
      fun _ => Alongside A := by
  rintro ctx s _ ⟨hblind, target, ht, rfl⟩
  exact .done ⟨h _ hblind, target, ht, rfl⟩

theorem log {event : Event} (h : event.IsBlind) :
    Paired R (Alongside A) (RenderM.log event) (RenderM.log event) fun _ => Alongside A :=
  changeShared fun _ hsh => hsh.push h

theorem changeRegistry (change : Registry → Registry) :
    Paired R (Alongside A) (RenderM.changeRegistry change) (RenderM.changeRegistry change)
      fun _ => Alongside A := changeShared fun _ hsh => hsh

theorem changeKeys (change : Key.Stack → Key.Stack) :
    Paired R (Alongside A) (RenderM.changeRenderer (Renderer.changeKeys change))
      (RenderM.changeRenderer (Renderer.changeKeys change)) fun _ => Alongside A :=
  changeRenderer (Renderer.target_changeKeys · change) (Renderer.changeKeys_on · · change)

theorem setLogger (logger : Option LoggerId) :
    Paired R (Alongside A) (RenderM.setLogger logger) (RenderM.setLogger logger)
      fun _ => Alongside A :=
  changeRenderer (Renderer.target_setLogger · logger) (Renderer.setLogger_on · · logger)

theorem markRendered :
    Paired R (Alongside A) (RenderM.changeRenderer Renderer.markRendered)
      (RenderM.changeRenderer Renderer.markRendered) fun _ => Alongside A :=
  changeRenderer (fun r => by rw [Renderer.pass_markRendered]) Renderer.markRendered_on

theorem enqueue (id : ComponentId) :
    Paired R (Alongside A) (RenderM.enqueue id) (RenderM.enqueue id) fun _ => Alongside A :=
  changeRenderer (Renderer.target_enqueue · id) (Renderer.enqueue_on · · id)

theorem pushKey (fragment : Key.Fragment) :
    Paired R (Alongside A) (RenderM.pushKey fragment) (RenderM.pushKey fragment)
      fun _ => Alongside A :=
  .renderer fun _ _ _ => .returning (.changeKeys _)

theorem logger? :
    Paired R (Alongside A) (RenderM.logger? (τ := τ)) (RenderM.logger? (τ := ρ))
      fun _ => Alongside A := .renderer fun _ _ _ => .pure fun _ _ hs => hs

theorem callLogger (call : LoggerCall) :
    Paired R (Alongside A) (RenderM.callLogger call) (RenderM.callLogger call)
      fun _ => Alongside A := by
  refine .bind .logger? fun logger => ?_
  cases logger with
  | none => exact .pure fun _ _ hs => hs
  | some logger => exact .log trivial

theorem verifyLogOnly (hR : ∀ s s', Alongside A s s' → R s s') (logOnly : Bool) :
    Paired R (Alongside A) (RenderM.verifyLogOnly logOnly) (RenderM.verifyLogOnly logOnly)
      fun _ => Alongside A :=
  .renderer fun _ _ _ =>
    .ite (.fail hR) (.ite (.fail hR) (.pure fun _ _ hs => hs))

theorem evaluateLogging (name : String) (arguments : List Payload) (placeholder : String) :
    Paired R (Alongside A) (RenderM.evaluateLogging name arguments placeholder)
      (RenderM.evaluateLogging name arguments placeholder) fun _ => Alongside A := by
  refine .bind .logger? fun logger => ?_
  cases logger with
  | none => exact .pure fun _ _ hs => hs
  | some logger => exact .bind (.log trivial) fun _ => .context fun _ => .pure fun _ _ hs => hs

theorem toDefault (hR : ∀ s s', Alongside A s s' → R s s') :
    Paired R (Alongside A) (RenderM.toDefault (τ := τ)) (RenderM.toDefault (τ := ρ))
      fun _ => Alongside A := by
  refine .renderer fun r target _ => ?_
  simp only [Renderer.kind_on]
  cases r.kind with
  | default => exact .fail hR
  | muted => exact .changeRenderer Renderer.target_handBackLogger Renderer.handBackLogger_on
  | probe => exact .pure fun _ _ hs => hs

theorem saveKey (key : String) :
    Paired R (Alongside A) (RenderM.saveKey key) (RenderM.saveKey key) fun _ => Alongside A :=
  changeShared fun _ hsh => hsh

theorem takeSavedKey :
    Paired R (Alongside A) (RenderM.takeSavedKey (τ := τ)) (RenderM.takeSavedKey (τ := ρ))
      fun _ => Alongside A := .state fun _ _ _ => .returning (changeShared fun _ hsh => hsh)

theorem introduce (id : ComponentId) :
    Paired R (Alongside A) (RenderM.introduce (τ := τ) id) (RenderM.introduce (τ := ρ) id)
      fun _ => Alongside A :=
  .bind (.changeRegistry _) fun _ => .state fun _ _ _ => .pure fun _ _ hs => hs

theorem createComponent (type : ComponentType) (key label : String) :
    Paired R (Alongside A) (RenderM.createComponent (τ := τ) type key label)
      (RenderM.createComponent (τ := ρ) type key label) fun _ => Alongside A :=
  .context fun _ => .state fun _ _ _ => .returning (.changeRegistry _)

theorem synchronizeAll (ids : List ComponentId) :
    Paired R (Alongside A) (RenderM.synchronizeAll (τ := τ) ids)
      (RenderM.synchronizeAll (τ := ρ) ids) fun _ => Alongside A := by
  induction ids with
  | nil => exact .pure fun _ _ hs => hs
  | cons id rest ih =>
    refine .context fun ctx => ?_
    exact .ite .breakThen
      (.bind (.changeRegistry _) fun _ => .bind (.log trivial) fun _ => ih)

theorem flushQueue :
    Paired R (Alongside A) (RenderM.flushQueue (τ := τ)) (RenderM.flushQueue (τ := ρ))
      fun _ => Alongside A :=
  .renderer fun _ _ _ => .bind (.changeRenderer (fun _ => rfl) fun _ _ => rfl) fun _ =>
    .synchronizeAll _

theorem layered {m : RenderM τ α} {m' : RenderM ρ α} (layer : Layer) (h : InStep A m m') :
    InStep A (RenderM.layered layer m) (RenderM.layered layer m') := by
  refine .bind (.changeRenderer (fun _ => rfl) (Renderer.push_on · · layer)) fun _ => ?_
  refine .bind (Q := fun _ => Alongside A) ?_ fun result => ?_
  · exact h.attempt.post fun result s s' hs => by cases result <;> exact hs
  · exact .renderer fun _ _ _ => .returning (.changeRenderer (fun _ => rfl) Renderer.pop_on)

theorem shielded {m : RenderM τ α} {m' : RenderM ρ α} (h : InStep A m m') :
    InStep A (RenderM.shielded m) (RenderM.shielded m') :=
  .bind .logger? fun _ => .bind (h.layered _) fun _ => .resume fun _ _ hs => hs

theorem muted {m : RenderM τ α} {m' : RenderM ρ α} (h : InStep A m m') :
    InStep A (RenderM.muted m) (RenderM.muted m') := by
  refine .renderer fun r target _ => ?_
  simp only [Renderer.kind_on]
  cases r.kind with
  | default => exact .shielded h
  | muted => exact .fail fun _ _ hs => hs
  | probe => exact h

theorem probe {m : RenderM τ Unit} {m' : RenderM ρ Unit} (h : InStep A m m') :
    InStep A (RenderM.probe m) (RenderM.probe m') :=
  .bind (h.layered _) fun _ => .bind (.resume fun _ _ hs => hs) fun _ => .pure fun _ _ hs => hs

end Alongside

end Paired

end

end KeyedRender
