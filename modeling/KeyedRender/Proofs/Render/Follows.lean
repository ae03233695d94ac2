import KeyedRender.Proofs.Render.Success
import KeyedRender.Proofs.Script.Traces

/-!
# Renderings that follow others

A rendering follows another one if it succeeds wherever the other one does, from related states to
related states. The two may be of different kinds, with different answers. The first one writes to a
markup target; it is told apart which of its calls are watched.

A lockstep says what a relation of states has to do for the renderer's calls to follow themselves. The
relation comes in two strengths: the stronger one holds once a call that changes the tree was made.
-/
namespace KeyedRender

structure Context.Alike (watched : Bool) (ctx ctx' : Context) : Prop where
  watched : ctx.watched = watched
  parameter : ctx'.parameter = ctx.parameter
  injected : ctx'.injected = ctx.injected
  stampsKeys : ctx'.stampsKeys = ctx.stampsKeys

def Shared.Called (sh : Shared) : Prop := ∃ call, Event.target call ∈ sh.log

theorem Shared.called_push (sh : Shared) {event : Event} (h : ∀ call, event ≠ .target call) :
    Shared.Called { sh with log := sh.log.push event } ↔ sh.Called := by
  refine ⟨fun ⟨call, hcall⟩ => ?_, fun ⟨call, hcall⟩ => ⟨call, Array.mem_push_of_mem event hcall⟩⟩
  obtain hold | heq := Array.mem_push.1 hcall
  · exact ⟨call, hold⟩
  · exact absurd heq.symm (h call)

section

variable {τ ρ α β α' β' : Type} {watched : Bool}

def Follows (watched : Bool) (P : RenderState τ → RenderState ρ → Prop) (m : RenderM τ α)
    (m' : RenderM ρ β) (Q : α → β → RenderState τ → RenderState ρ → Prop) : Prop :=
  ∀ ctx ctx' s s' a t, ctx.Alike watched ctx' → P s s' → m ctx s = .done a t →
    ∃ b t', m' ctx' s' = .done b t' ∧ Q a b t t'

namespace Follows

open RenderM

variable {P P' : RenderState τ → RenderState ρ → Prop} {m : RenderM τ α} {m' : RenderM ρ β}
  {Q Q' : α → β → RenderState τ → RenderState ρ → Prop}

theorem pre (h : Follows watched P m m' Q) (hP : ∀ s s', P' s s' → P s s') :
    Follows watched P' m m' Q :=
  fun ctx ctx' s s' a t hctx hs hdone => h ctx ctx' s s' a t hctx (hP s s' hs) hdone

theorem post (h : Follows watched P m m' Q) (hQ : ∀ a b s s', Q a b s s' → Q' a b s s') :
    Follows watched P m m' Q' := by
  intro ctx ctx' s s' a t hctx hs hdone
  obtain ⟨b, t', hdone', hq⟩ := h ctx ctx' s s' a t hctx hs hdone
  exact ⟨b, t', hdone', hQ a b t t' hq⟩

theorem assuming {c : Prop} (h : c → Follows watched P m m' Q) :
    Follows watched (fun s s' => P s s' ∧ c) m m' Q :=
  fun ctx ctx' s s' a t hctx hs hdone => h hs.2 ctx ctx' s s' a t hctx hs.1 hdone

theorem pure {a : α} {b : β} (h : ∀ s s', P s s' → Q a b s s') :
    Follows watched P (Pure.pure a) (Pure.pure b) Q := by
  intro ctx ctx' s s' _ _ _ hs hdone
  cases hdone
  exact ⟨b, s', rfl, h s s' hs⟩

theorem fail {e : RenderError} : Follows watched P (RenderM.fail e) m' Q :=
  fun _ _ _ _ _ _ _ _ hdone => nomatch hdone

theorem bind {next : α → RenderM τ α'} {next' : β → RenderM ρ β'}
    {Q' : α' → β' → RenderState τ → RenderState ρ → Prop} (hm : Follows watched P m m' Q)
    (hn : ∀ a b, Follows watched (Q a b) (next a) (next' b) Q') :
    Follows watched P (m >>= next) (m' >>= next') Q' := by
  intro ctx ctx' s s' a' t hctx hs hdone
  obtain ⟨a, u, hfirst, hrest⟩ := bind_eq_done.1 hdone
  obtain ⟨b, u', hfirst', hu⟩ := hm ctx ctx' s s' a u hctx hs hfirst
  obtain ⟨b', t', hrest', ht⟩ := hn a b ctx ctx' u u' a' t hctx hu hrest
  exact ⟨b', t', bind_eq_done.2 ⟨b, u', hfirst', hrest'⟩, ht⟩

theorem bind_same {R : RenderState τ → RenderState ρ → Prop} {m' : RenderM ρ α}
    {next : α → RenderM τ α'} {next' : α → RenderM ρ β'}
    {Q' : α' → β' → RenderState τ → RenderState ρ → Prop}
    (hm : Follows watched P m m' fun a b s s' => b = a ∧ R s s')
    (hn : ∀ a, Follows watched R (next a) (next' a) Q') :
    Follows watched P (m >>= next) (m' >>= next') Q' := by
  refine .bind hm fun a b => ?_
  rintro ctx ctx' s s' a' t hctx ⟨rfl, hs⟩ hdone
  exact hn b ctx ctx' s s' a' t hctx hs hdone

theorem returning {f : α → α'} {g : β → β'} {R : RenderState τ → RenderState ρ → Prop}
    (h : Follows watched P m m' fun _ _ => R) :
    Follows watched P (m >>= fun a => Pure.pure (f a)) (m' >>= fun b => Pure.pure (g b))
      fun _ _ => R :=
  .bind h fun _ _ => .pure fun _ _ hs => hs

theorem ite {c : Prop} [Decidable c] {n : RenderM τ α} {n' : RenderM ρ β}
    (hm : Follows watched P m m' Q) (hn : Follows watched P n n' Q) :
    Follows watched P (if c then m else n) (if c then m' else n') Q := by
  split
  · exact hm
  · exact hn

theorem context {next : Context → RenderM τ α} {next' : Context → RenderM ρ β}
    (h : ∀ ctx ctx', ctx.Alike watched ctx' → Follows watched P (next ctx) (next' ctx') Q) :
    Follows watched P (RenderM.context >>= next) (RenderM.context >>= next') Q :=
  fun ctx ctx' s s' a t hctx hs hdone => h ctx ctx' hctx ctx ctx' s s' a t hctx hs hdone

theorem renderer {next : Renderer τ → RenderM τ α} {next' : Renderer ρ → RenderM ρ β}
    (h : ∀ r r', Follows watched (fun s s' => s.renderer = r ∧ s'.renderer = r' ∧ P s s') (next r)
      (next' r') Q) :
    Follows watched P (RenderM.renderer >>= next) (RenderM.renderer >>= next') Q :=
  fun ctx ctx' s s' a t hctx hs hdone =>
    h s.renderer s'.renderer ctx ctx' s s' a t hctx ⟨rfl, rfl, hs⟩ hdone

theorem withParameter (h : Follows watched P m m' Q) (parameter : Option String) :
    Follows watched P (RenderM.withParameter parameter m) (RenderM.withParameter parameter m')
      Q := by
  intro ctx ctx' s s' a t hctx hs hdone
  have halike : Context.Alike watched { ctx with parameter := parameter.getD ctx.parameter }
      { ctx' with parameter := parameter.getD ctx'.parameter } :=
    ⟨hctx.watched, by rw [hctx.parameter], hctx.injected, hctx.stampsKeys⟩
  exact h _ _ s s' a t halike hs hdone

theorem bracketed {root : NodeId} {mode : PatchMode} {rule : Key.MatchRule}
    {logger : Option LoggerId} [RenderTarget τ] [RenderTarget ρ] {template : RenderM τ Unit}
    {template' : RenderM ρ Unit} {R : RenderState τ → RenderState ρ → Prop}
    (hcall : ∀ call, Follows watched R (callTarget call) (callTarget call) fun _ _ => R)
    (hlogger : Follows watched R (setLogger logger) (setLogger logger) fun _ _ => R)
    (h : Follows watched R template template' fun _ _ => R) :
    Follows watched R (RenderM.bracketed root mode rule logger template)
      (RenderM.bracketed root mode rule logger template') fun _ _ => R := by
  refine .bind (hcall _) fun _ _ => .bind hlogger fun _ _ => ?_
  intro ctx ctx' s s' a t hctx hs hdone
  obtain ⟨result, u, hattempt, hrest⟩ := bind_eq_done.1 hdone
  obtain ⟨_, v, hend, hresume⟩ := bind_eq_done.1 hrest
  cases result with
  | error e => nomatch hresume
  | ok value =>
    obtain ⟨_, hdone⟩ : ∃ b, template ctx s = .done b u := by
      unfold RenderM.attempt at hattempt
      cases htemplate : template ctx s with
      | done b w => rw [htemplate] at hattempt; cases hattempt; exact ⟨b, rfl⟩
      | failed e w => rw [htemplate] at hattempt; cases hattempt
      | broken f => rw [htemplate] at hattempt; cases hattempt
    obtain ⟨b, u', hdone', hu⟩ := h ctx ctx' s s' _ u hctx hs hdone
    obtain ⟨node, v', hend', hv⟩ := hcall .endPatch ctx ctx' u u' _ v hctx hu hend
    have hattempt' : RenderM.attempt template' ctx' s' = .done (.ok b) u' := by
      simp only [RenderM.attempt, hdone']
    cases hresume
    exact ⟨(), v', bind_eq_done.2 ⟨_, _, hattempt', bind_eq_done.2 ⟨_, _, hend', rfl⟩⟩, hv⟩

end Follows

/-- Where one of two renderings goes on with a body and the other one may not. -/
def Guards (watched : Bool) (P : RenderState τ → RenderState ρ → Prop) (renders renders' : Bool) :
    Prop :=
  ∀ body body', Follows watched P body body' (fun _ _ => P) →
    Follows watched P (if renders then body else pure ()) (if renders' then body' else pure ())
      fun _ _ => P

theorem Guards.refl (watched : Bool) (P : RenderState τ → RenderState ρ → Prop) (renders : Bool) :
    Guards watched P renders renders :=
  fun _ _ h => .ite h (.pure fun _ _ hs => hs)

end

/-- What a relation of states does for renderings of two kinds to go the same way. -/
structure Lockstep {ρ : Type} [RenderTarget ρ] (watched : Bool)
    (X : Bool → RenderState MarkupWriter → RenderState ρ → Prop) : Prop where
  weaken : ∀ {o s s'}, X true s s' → X o s s'
  unlogged : ∀ {o s s'}, X o s s' → s.renderer.logger? = none ∧ s'.renderer.logger? = none
  keys : ∀ {o s s'} (change change' : Key.Stack → Key.Stack), X o s s' →
    X o { s with renderer := s.renderer.changeKeys change }
      { s' with renderer := s'.renderer.changeKeys change' }
  shared : ∀ {o s s'} (sh sh' : Shared), X o s s' → (sh.Called ↔ s.shared.Called) →
    X o { s with shared := sh } { s' with shared := sh' }
  emit : ∀ {o call call'}, (∀ w : MarkupWriter, w.step call = w.step call') →
    Follows watched (X o) (RenderM.emit? call) (RenderM.emit? call') fun _ _ => X true
  markup : ∀ {o} (markup : String), RenderM.needsMarkup markup = true →
    Follows watched (X o) (RenderM.print (.sanitizedHtml markup))
      (RenderM.print (.sanitizedHtml markup)) fun _ _ => X true
  serve : ∀ {o} (name key : String) (parameters : Option Payload),
    Follows watched (X o) (RenderM.openServerElement name key parameters)
      (RenderM.openServerElement name key parameters) fun renders renders' s s' =>
        X true s s' ∧ Guards watched (X true) renders renders'
  skip : ∀ told : Bool,
    Follows watched (X true) (RenderM.maybeSkip told) (RenderM.maybeSkip told)
      fun skipped skipped' s s' => X true s s' ∧ Guards watched (X true) (!skipped) (!skipped')

namespace Lockstep

open RenderM

variable {ρ : Type} [RenderTarget ρ] {watched : Bool}
  {X : Bool → RenderState MarkupWriter → RenderState ρ → Prop} (L : Lockstep watched X) {o : Bool}
include L

theorem changeKeys (change change' : Key.Stack → Key.Stack) :
    Follows watched (X o) (changeRenderer (Renderer.changeKeys change))
      (changeRenderer (Renderer.changeKeys change')) fun _ _ => X o := by
  intro ctx ctx' s s' a t _ hs hdone
  cases hdone
  exact ⟨(), _, rfl, L.keys change change' hs⟩

theorem changeShared {change change' : Shared → Shared}
    (h : ∀ sh : Shared, (change sh).Called ↔ sh.Called) :
    Follows watched (X o) (RenderM.changeShared change) (RenderM.changeShared change')
      fun _ _ => X o := by
  intro ctx ctx' s s' a t _ hs hdone
  cases hdone
  exact ⟨(), _, rfl, L.shared _ _ hs (h s.shared)⟩

theorem answer (question : Question) (a a' : Option Answer) :
    Follows watched (X o) (RenderM.answer question a) (RenderM.answer question a')
      fun _ _ => X o := by
  have hcalled : ∀ (sh : Shared) (a : Answer),
      Shared.Called { sh with log := sh.log.push (.answer question a) } ↔ sh.Called :=
    fun sh a => sh.called_push fun call => by simp
  intro ctx ctx' s s' u t _ hs hdone
  cases a with
  | none =>
    cases hdone
    cases a' with
    | none => exact ⟨(), s', rfl, hs⟩
    | some a' => exact ⟨(), _, rfl, L.shared _ _ hs Iff.rfl⟩
  | some a =>
    cases hdone
    cases a' with
    | none => exact ⟨(), s', rfl, L.shared _ _ hs (hcalled s.shared a)⟩
    | some a' => exact ⟨(), _, rfl, L.shared _ _ hs (hcalled s.shared a)⟩

theorem pushKey (fragment : Key.Fragment) :
    Follows watched (X o) (RenderM.pushKey fragment) (RenderM.pushKey fragment)
      fun _ _ => X o :=
  .renderer fun _ _ => .returning ((L.changeKeys _ _).pre fun _ _ hs => hs.2.2)

theorem saveKey (key key' : String) :
    Follows watched (X o) (RenderM.saveKey key) (RenderM.saveKey key') fun _ _ => X o :=
  L.changeShared fun _ => Iff.rfl

theorem takeSavedKey :
    Follows watched (X o) (RenderM.takeSavedKey (τ := MarkupWriter)) (RenderM.takeSavedKey (τ := ρ))
      fun _ _ => X o := by
  intro ctx ctx' s s' key t _ hs hdone
  cases hdone
  exact ⟨_, _, rfl, L.shared _ _ hs Iff.rfl⟩

theorem called {call call' : TargetCall} (h : ∀ w : MarkupWriter, w.step call = w.step call') :
    Follows watched (X o) (RenderM.emit call) (RenderM.emit call') fun _ _ => X true :=
  .returning (L.emit h)

theorem openElement (name key : String) :
    Follows watched (X o) (RenderM.openElement name key) (RenderM.openElement name key)
      fun _ _ => X true :=
  .renderer fun _ _ => .pre (L.emit fun _ => rfl) fun _ _ hs => hs.2.2

theorem text (value : String) :
    Follows watched (X o) (RenderM.text value) (RenderM.text value) fun _ _ => X true :=
  L.emit fun _ => rfl

theorem setAttribute (name value : String) :
    Follows watched (X o) (RenderM.setAttribute name value) (RenderM.setAttribute name value)
      fun _ _ => X true := by
  refine .bind (L.called fun _ => rfl) fun _ _ => ?_
  refine .ite (L.called fun _ => rfl) (.ite (L.called fun _ => rfl) ?_)
  exact .pure fun _ _ hs => hs

theorem setAttributes (attributes : List (String × String)) :
    Follows watched (X o) (RenderM.setAttributes attributes) (RenderM.setAttributes attributes)
      fun _ _ => X o := by
  induction attributes with
  | nil => exact .pure fun _ _ hs => hs
  | cons a attributes ih =>
    exact .bind (L.setAttribute _ _) fun _ _ => ih.pre fun _ _ => L.weaken

theorem logger? :
    Follows watched (X o) (RenderM.logger? (τ := MarkupWriter)) (RenderM.logger? (τ := ρ))
      fun logger logger' s s' => logger = none ∧ logger' = none ∧ X o s s' := by
  intro ctx ctx' s s' a t _ hs hdone
  cases hdone
  exact ⟨_, _, rfl, (L.unlogged hs).1, (L.unlogged hs).2, hs⟩

theorem unloggedBind {α β : Type} {next : Option LoggerId → RenderM MarkupWriter α}
    {next' : Option LoggerId → RenderM ρ β}
    {Q : α → β → RenderState MarkupWriter → RenderState ρ → Prop}
    (h : Follows watched (X o) (next none) (next' none) Q) :
    Follows watched (X o) (RenderM.logger? >>= next) (RenderM.logger? >>= next') Q := by
  refine .bind L.logger? fun logger logger' => ?_
  intro ctx ctx' s s' a t hctx ⟨hnone, hnone', hs⟩ hdone
  rw [hnone] at hdone
  rw [hnone']
  exact h ctx ctx' s s' a t hctx hs hdone

theorem callLogger (call : LoggerCall) :
    Follows watched (X o) (RenderM.callLogger call) (RenderM.callLogger call) fun _ _ => X o :=
  L.unloggedBind (.pure fun _ _ hs => hs)

theorem evaluateLogging (name : String) (arguments : List Payload) (placeholder : String) :
    Follows watched (X o) (RenderM.evaluateLogging name arguments placeholder)
      (RenderM.evaluateLogging name arguments placeholder) fun _ _ => X o :=
  L.unloggedBind (.pure fun _ _ hs => hs)

omit [RenderTarget ρ] L in
theorem templateText (template : TextTemplate) :
    Follows watched (X o) (RenderM.templateText template) (RenderM.templateText template)
      fun text text' s s' => text' = text ∧ X o s s' :=
  .context fun ctx ctx' hctx => .pure fun _ _ hs => by
    simp only [hctx.parameter, hctx.injected]
    exact ⟨trivial, hs⟩

theorem printContent (value : Printable) :
    Follows watched (X o) (RenderM.printContent value) (RenderM.printContent value)
      fun _ _ => X o :=
  .returning ((L.text _).post fun _ _ _ _ => L.weaken)

theorem print (value : Printable) :
    Follows watched (X o) (RenderM.print value) (RenderM.print value) fun _ _ => X o := by
  cases value with
  | sanitizedHtml markup =>
    cases hneeds : needsMarkup markup with
    | true => exact (L.markup markup hneeds).post fun _ _ _ _ => L.weaken
    | false =>
      simp only [RenderM.print, hneeds, Bool.false_eq_true, if_false]
      exact L.printContent _
  | null => exact L.printContent _
  | bool value => exact L.printContent _
  | number value => exact L.printContent _
  | text value => exact L.printContent _

end Lockstep

end KeyedRender
