import KeyedRender.Proofs.Render.Voicing
import KeyedRender.Proofs.Script.Traces
import KeyedRender.Proofs.Target.Grounds

/-!
# Scripts and their voice

Wherever a script is rendered, it goes the way its voice goes: covered by a layer or on a target of
its own, with the same calls to loggers, the same keys and the same errors. The proof is an
induction on the script, for all targets at once.
-/
namespace KeyedRender

open RenderTarget (apply document withDocument)
open RenderM

namespace Voices

section

variable {τ : Type} [RenderTarget τ] {G : Ground τ} {n : Nat}

theorem stampBare (hc : G.covered = false) {base : List ComponentId} {ctx : Context}
    {s : RenderState τ} (hs : G.On base n ctx.rendering s) (hl : s.renderer.layers = [])
    (key : String) {opened : Option NodeId}
    (hopened : ∀ node, opened = some node → G.opened node s.renderer.pass.target) :
    (∃ u, RenderM.stampKey key ctx s = .done () u ∧ G.On base n ctx.rendering u ∧
      u.voice G.covered = s.voice G.covered ∧
      ∀ node, opened = some node → G.opened node u.renderer.pass.target) ∨
    G.mayBreak ∧ ∃ f, RenderM.stampKey key ctx s = .broken f := by
  simp only [RenderM.stampKey, bind_run, RenderM.context]
  split
  · rw [RenderM.setAttribute, if_neg (by decide), if_neg (by decide)]
    simp only [RenderM.emit, bind_run, emit?_of_layers hl]
    obtain ⟨_, u, hrun, hu, hvoice, -, happly⟩ | ⟨hb, f, hrun⟩ := hs.callTarget
      (G.calls hc (show TargetCall.IsInner (.setAttribute serverKeyAttribute key) from trivial)
        hs.target) ctx
    · refine .inl ⟨u, by simp only [hrun, pure_run], hu, hvoice, fun node hnode => ?_⟩
      have hassigned := G.assigns hc serverKeyAttribute key hs.target (hopened node hnode)
      rwa [happly] at hassigned
    · exact .inr ⟨hb, f, by simp only [hrun]⟩
  · exact .inl ⟨s, rfl, hs, rfl, hopened⟩

theorem openBare (hc : G.covered = false) {base : List ComponentId} {ctx : Context}
    {s : RenderState τ} (hs : G.On base n ctx.rendering s) (hl : s.renderer.layers = [])
    (name key : String) (parameters : Option Payload) :
    (RenderM.openServerElement name key parameters ctx s).Echoes G (G.On base n ctx.rendering) Eq
      (.done true (s.voice G.covered)) := by
  have hkind : s.renderer.kind = .default := by rw [Renderer.kind, hl]
  simp only [RenderM.openServerElement, bind_run, RenderM.renderer, hkind]
  have hopens := G.opens hc name key hs.target
  obtain ⟨opened, t, hrun, ht, hvoice, hlayers, happly⟩ | ⟨hb, f, hrun⟩ :=
    hs.callTarget (G.calls hc (show TargetCall.IsInner (.openElement name key) from trivial) hs.target)
      ctx
  · rw [happly] at hopens
    simp only [hrun]
    obtain ⟨u, hrun', hu, hvoice', hfresh⟩ | ⟨hb, f, hrun'⟩ :=
      stampBare hc ht (hlayers.trans hl) key hopens
    · simp only [hrun']
      have hsame : s.voice G.covered = u.voice G.covered := (hvoice'.trans hvoice).symm
      cases opened with
      | none => exact .of_voice hu rfl hsame
      | some node =>
        simp only [RenderM.readTarget, bind_run, RenderM.renderer,
          G.empty hc hu.target (hfresh node rfl), pure_run, Bool.false_eq_true, if_false]
        exact .of_voice hu rfl hsame
    · simp only [hrun']
      exact .broken hb
  · simp only [hrun]
    exact .broken hb

theorem openServerElement (name key : String) (parameters : Option Payload) :
    Voices G n (RenderM.openServerElement name key parameters) RenderM.renders Eq := by
  intro base ctx s hs
  have hrenders : RenderM.renders ctx.voice (s.voice G.covered) =
      .done (decide (s.renderer.kind ≠ .probe)) (s.voice G.covered) := by
    have hkind : (s.voice G.covered).renderer.kind = .probe ↔ s.renderer.kind = .probe :=
      Renderer.kind_voice hs.spoken
    simp only [renders_run, ne_eq, hkind]
  rw [hrenders]
  cases hkind : s.renderer.kind with
  | default =>
    have hl := layers_of_kind_eq_default hkind
    exact openBare (uncovered hs.layers hl) hs hl name key parameters
  | muted =>
    simp only [RenderM.openServerElement, bind_run, RenderM.renderer, hkind]
    exact .of_voice hs rfl rfl
  | probe =>
    simp only [RenderM.openServerElement, bind_run, RenderM.renderer, hkind]
    exact .of_voice (hs.congr (Renderer.length_layers_markRendered _)
      (by simpa using hs.target) rfl (by simp)) rfl (by simp [RenderState.voice])

theorem requeue (hr : G.requeues) (index : Nat) :
    Silent G n (RenderM.requeue (τ := τ) index) := by
  intro base ctx s hs
  simp only [RenderM.requeue, bind_run, RenderM.state]
  cases hknown : s.shared.registry.known[index]? with
  | none => exact .of_voice hs trivial rfl
  | some id =>
    simp only [RenderM.liveComponents, bind_run, RenderM.context, RenderM.renderer, pure_run]
    split
    · have hid : G.mayBreak ∨ id ∉ ctx.rendering := hs.apart.imp_right fun hapart hmem =>
        hapart.unknown hr id hmem (List.mem_of_getElem? hknown)
      exact .of_voice (hs.enqueue hid) trivial (by simp [RenderState.voice])
    · exact .of_voice hs trivial rfl

section Components

variable {base : List ComponentId} {ctx : Context} {s : RenderState τ}

theorem findComponent?_none (hs : G.On base n ctx.rendering s) (hb : ¬ G.mayBreak)
    (type : ComponentType) (key : String) :
    RenderM.findComponent? type key ctx s = .done none s := by
  by_cases hl : s.renderer.layers = []
  · have hc := uncovered hs.layers hl
    rw [findComponent?_run (by rw [hl]; rfl), G.pointer hc hs.target hb,
      Document.siblingsFrom_none]
    rfl
  · exact findComponent?_none_of_layers hl type key ctx

theorem beginComponent (hs : G.On base n ctx.rendering s) (spec : ComponentSpec) :
    (∃ id t, RenderM.beginComponent spec ctx s = .done id t ∧
      G.On base n (id :: ctx.rendering) t ∧ t.voice G.covered = s.voice G.covered ∧
      (G.mayBreak ∨ id ∉ ctx.rendering)) ∨
    G.mayBreak ∧ ∃ f, RenderM.beginComponent spec ctx s = .broken f := by
  cases hrun : RenderM.beginComponent spec ctx s with
  | failed e t => exact absurd hrun beginComponent_ne_failed
  | broken f =>
    refine .inr ⟨Classical.byContradiction fun hb => ?_, f, rfl⟩
    have hapart := hs.apart.resolve_left hb
    simp only [RenderM.beginComponent, bind_run, RenderM.renderer, findComponent?_none hs hb,
      Stable.createComponent_run, enterComponent_run] at hrun
    split at hrun
    · next hmem => exact Nat.lt_irrefl _ (hapart.created _ hmem)
    · cases hrun
  | done id t =>
    refine .inl ⟨id, t, rfl, ?_, ?_, ?_⟩
    · obtain ⟨hrenderer, -⟩ := beginComponent_cases hrun
      refine ⟨by rw [hrenderer, Renderer.layers_enqueue]; exact hs.layers,
        by rw [hrenderer, Renderer.target_enqueue]; exact hs.target, ?_⟩
      by_cases hb : G.mayBreak
      · exact .inl hb
      obtain ⟨rfl, c, rfl⟩ := beginComponent_new (findComponent?_none hs hb _ _) hrun
      have hapart := hs.apart.resolve_left hb
      have hnew : s.shared.registry.components.size ∉ ctx.rendering := fun hmem =>
        Nat.lt_irrefl _ (hapart.created _ hmem)
      have hqueue := (hs.enqueue (.inr hnew)).apart.resolve_left hb
      exact .inr (hqueue.create c)
    · obtain ⟨hrenderer, hshared | ⟨type, key, label, hshared⟩⟩ := beginComponent_cases hrun <;>
        simp [RenderState.voice, hrenderer, hshared]
    · by_cases hb : G.mayBreak
      · exact .inl hb
      obtain ⟨rfl, -⟩ := beginComponent_new (findComponent?_none hs hb _ _) hrun
      exact .inr fun hmem => Nat.lt_irrefl _ ((hs.apart.resolve_left hb).created _ hmem)

theorem renderRoot (spec : ComponentSpec) {before body : RenderM τ Unit}
    {before' body' : RenderM Unit Unit} (hbefore : Voices G n before before' Eq)
    (hbody : Voices G n body body' Eq) :
    Voices G n (RenderM.renderRoot spec before body) (spec.rootVoice before' body')
      fun _ _ => True := by
  have element : ∀ f : Option NodeId → Option NodeId, Voices G n (do
      let root ← RenderM.openElement spec.name spec.key
      body
      RenderM.emit .closeElement
      return f root) body' fun _ _ => True := by
    intro f
    refine .andThen (.openElement _ _) fun root => ?_
    have hclose : Voices G n body body' fun _ _ => True := hbody.post fun _ _ _ => trivial
    rw [← bind_pure body']
    exact .bind hclose fun _ _ _ => .quiet (.emit trivial)
  refine .bind hbefore fun _ _ _ => ?_
  cases spec.root with
  | text => exact .text _
  | bare node => exact .pure trivial
  | opened => exact element id
  | none => exact element fun _ => none
  | given node => exact element fun _ => some node

theorem finishComponent {rendering : List ComponentId} (hs : G.On base n rendering s)
    (id : ComponentId) (root : Option NodeId) (ctx : Context) :
    ∃ t, RenderM.finishComponent id root ctx s = .done (some id) t ∧ G.On base n rendering t ∧
      t.voice G.covered = s.voice G.covered := by
  cases root with
  | none => exact ⟨s, rfl, hs, rfl⟩
  | some node =>
    obtain ⟨t, hrun, ht, hvoice⟩ := hs.attach id node ctx
    refine ⟨t, ?_, ht, hvoice⟩
    simp only [RenderM.finishComponent, bind_run, hrun, pure_run]

theorem stepComponent_run (spec : ComponentSpec) (before body : RenderM τ Unit)
    (hkind : s.renderer.kind ≠ .probe) : RenderM.stepComponent spec before body ctx s = (do
      let id ← RenderM.beginComponent spec
      let root ← renderBegun spec before body id
      let _ ← RenderM.finishComponent id root
      let report ← introduce id
      RenderM.answer (.component spec) (some (.component report))) ctx s := by
  have hfinish : ∀ id root, RenderM.finishComponent id root = (do
      let _ ← RenderM.finishComponent (τ := τ) id root
      return some id) := by
    intro id root
    cases root <;> simp only [RenderM.finishComponent, bind_assoc, pure_bind]
  rw [RenderM.stepComponent, renderComponent_eq]
  simp only [bind_run, RenderM.renderer]
  rw [if_neg hkind]
  simp only [bind_run]
  cases RenderM.beginComponent spec ctx s with
  | failed e t => rfl
  | broken f => rfl
  | done id t =>
    dsimp only
    cases renderBegun spec before body id ctx t with
    | failed e u => rfl
    | broken f => rfl
    | done root u =>
      dsimp only
      rw [hfinish]
      simp only [bind_run]
      cases RenderM.finishComponent id root ctx u <;> rfl

theorem stepComponent (spec : ComponentSpec) {before body : RenderM τ Unit}
    {before' body' : RenderM Unit Unit} (hbefore : Voices G n before before' Eq)
    (hbody : Voices G n body body' Eq) :
    Voices G n (RenderM.stepComponent spec before body) (spec.voice before' body') Eq := by
  intro base ctx s hs
  have hvoiced : (s.voice G.covered).renderer.kind = .probe ↔ s.renderer.kind = .probe :=
    Renderer.kind_voice hs.spoken
  have answered : ∀ {t : RenderState τ} (report : Option ComponentReport),
      G.On base n ctx.rendering t → ∃ u, RenderM.answer (.component spec)
        (some (.component report)) ctx t = .done () u ∧ G.On base n ctx.rendering u ∧
          u.voice G.covered = t.voice G.covered := fun report ht =>
    ⟨_, rfl, ht.changeShared rfl, by simp [RenderState.voice, Shared.voice_push, Event.isSpoken]⟩
  by_cases hkind : s.renderer.kind = .probe
  · have hmarked : G.On base n ctx.rendering { s with renderer := s.renderer.markRendered } :=
      hs.congr (Renderer.length_layers_markRendered _) (by simpa using hs.target) rfl
        (by simp)
    obtain ⟨u, hu, hon, hvoice⟩ := answered none hmarked
    have hrun : RenderM.stepComponent spec before body ctx s = .done () u := by
      rw [RenderM.stepComponent, renderComponent_eq]
      simp only [bind_run, RenderM.renderer]
      rw [if_pos hkind]
      exact hu
    have hquiet : spec.voice before' body' ctx.voice (s.voice G.covered) =
        .done () (s.voice G.covered) := by
      simp only [ComponentSpec.voice, bind_run, renders_run, ne_eq, hvoiced.2 hkind,
        not_true_eq_false, decide_false, Bool.false_eq_true, if_false, pure_run]
    rw [hrun, hquiet]
    exact .of_voice hon rfl (by rw [hvoice]; simp [RenderState.voice])
  · have hheard : spec.voice before' body' ctx.voice (s.voice G.covered) =
        spec.rootVoice before' body' ctx.voice (s.voice G.covered) := by
      simp only [ComponentSpec.voice, bind_run, renders_run, ne_eq, mt hvoiced.1 hkind,
        not_false_eq_true, decide_true, if_true]
    rw [stepComponent_run spec before body hkind, hheard]
    obtain ⟨id, t, hbegin, ht, hvoice, hid⟩ | ⟨hb, f, hbegin⟩ := beginComponent hs spec
    · have hroot : (RenderM.renderRoot spec before body
          { ctx with rendering := id :: ctx.rendering } t).Echoes G
            (G.On base n (id :: ctx.rendering)) (fun _ _ => True)
            (spec.rootVoice before' body' ctx.voice (s.voice G.covered)) :=
        hvoice ▸ renderRoot spec hbefore hbody base
          { ctx with rendering := id :: ctx.rendering } t ht
      simp only [bind_run, hbegin, renderBegun, withContext]
      generalize RenderM.renderRoot spec before body
        { ctx with rendering := id :: ctx.rendering } t = o at hroot
      generalize spec.rootVoice before' body' ctx.voice (s.voice G.covered) = o' at hroot
      cases hroot with
      | failed hu => exact .failed (hs.leave hu)
      | broken hb => exact .broken hb
      | @done root _ u hu _ =>
        obtain ⟨v, hfinish, hv, hfinished⟩ := finishComponent hu id root ctx
        obtain ⟨w, hanswer, hw, hanswered⟩ := answered
          ((v.shared.registry.learn id).report? (fun _ => true) id) (hs.learn hv hid)
        have hrest : (introduce id >>= fun report =>
            RenderM.answer (.component spec) (some (.component report))) ctx v = .done () w := hanswer
        rw [bind_run] at hrest
        simp only [hfinish, hrest]
        exact .of_voice hw rfl (hfinished.symm.trans hanswered.symm)
    · simp only [bind_run, hbegin]
      exact .broken hb

end Components

section Passes

variable {base : List ComponentId} {ctx : Context} {s : RenderState τ}

theorem synchronizeAll (hs : G.On base n ctx.rendering s) {ids : List ComponentId}
    (hids : G.mayBreak ∨ ∀ id ∈ ids, id ∉ ctx.rendering) :
    (RenderM.synchronizeAll ids ctx s).Echoes G (G.On base n ctx.rendering) Eq
      (.done () (s.voice G.covered)) := by
  induction ids generalizing s with
  | nil => exact .of_voice hs rfl rfl
  | cons id rest ih =>
    simp only [RenderM.synchronizeAll, bind_run, RenderM.context]
    by_cases hmem : id ∈ ctx.rendering
    · rw [if_pos hmem]
      exact .broken (hids.resolve_right fun h => h id (List.mem_cons_self ..) hmem)
    · rw [if_neg hmem]
      have hstep : G.On base n ctx.rendering ⟨s.renderer,
          { s.shared.changeRegistry (·.update id Component.synchronize) with
            log := s.shared.log.push (.synchronized id) }⟩ :=
        ⟨hs.layers, hs.target, hs.apart.imp_right fun h =>
          h.congr (Nat.le_of_eq (Registry.size_update ..).symm) rfl⟩
      have hrest := ih hstep (hids.imp_right fun h other hother =>
        h other (List.mem_cons_of_mem _ hother))
      have hvoice : RenderState.voice G.covered ⟨s.renderer,
          { s.shared.changeRegistry (·.update id Component.synchronize) with
            log := s.shared.log.push (.synchronized id) }⟩ = s.voice G.covered :=
        congrArg (RenderState.mk _) (Shared.voice_push s.shared (.synchronized id))
      rw [hvoice] at hrest
      exact hrest

theorem flushQueue (hs : G.On base n ctx.rendering s)
    (hbase : G.mayBreak ∨ ctx.rendering ⊆ base) :
    (RenderM.flushQueue ctx s).Echoes G (G.On base n ctx.rendering) Eq
      (.done () (s.voice G.covered)) := by
  have hcleared : G.On base n ctx.rendering { s with renderer := s.renderer.clearQueue } :=
    ⟨hs.layers, hs.target, hs.apart.imp_right fun h =>
      ⟨h.base_subset, h.created, h.unknown, h.known_lt, nofun⟩⟩
  refine synchronizeAll hcleared ?_
  rcases hs.apart with hb | hapart
  · exact .inl hb
  · exact hbase.imp_right fun hbase id hid hmem => hapart.unqueued id hid (hbase hmem)

theorem bracketed {m : RenderM τ Unit} {v : RenderM Unit Unit} (hm : Voices G n m v Eq)
    (hc : G.covered = false) (hs : G.On base n ctx.rendering s) (root : NodeId) (mode : PatchMode)
    (rule : Key.MatchRule) (hbegin : Allows (fun _ => G.mayBreak) (fun r => G.holds r.2)
      (apply (.beginPatch root mode rule) s.renderer.pass.target)) (logger : Option LoggerId) :
    (RenderM.bracketed root mode rule logger m ctx s).Echoes G (G.On base n ctx.rendering) Eq
      ((do
        RenderM.setLogger logger
        v) ctx.voice (s.voice G.covered)) := by
  have hresume : v = RenderM.attempt v >>= RenderM.resume := by
    funext ctx s
    simp only [bind_run, RenderM.attempt]
    cases v ctx s <;> rfl
  have hrest : Voices G n (do
      RenderM.setLogger logger
      let result ← RenderM.attempt m
      let _ ← RenderM.callTarget .endPatch
      RenderM.resume result) (do
      RenderM.setLogger logger
      v) Eq := by
    rw [hresume]
    refine .bind (.setLogger logger) fun _ _ _ => .bind hm.attempt ?_
    rintro result _ rfl
    exact .andThen (.callTarget hc trivial) fun _ => .resume result
  obtain ⟨_, t, hrun, ht, hvoice, -⟩ | ⟨hb, f, hrun⟩ := hs.callTarget hbegin ctx
  · rw [← hvoice]
    simp only [RenderM.bracketed, bind_run, hrun]
    exact hrest base ctx t ht
  · simp only [RenderM.bracketed, bind_run, hrun]
    exact .broken hb

theorem patch {m : RenderM τ Unit} {v : RenderM Unit Unit} (hm : Voices G n m v Eq)
    (hc : G.covered = false) (ctx : Context) (hs : G.On ctx.rendering n ctx.rendering s)
    (root : NodeId) (mode : PatchMode) (rule : Key.MatchRule)
    (hbegin : Allows (fun _ => G.mayBreak) (fun r => G.holds r.2)
      (apply (.beginPatch root mode rule) s.renderer.pass.target)) (logger : Option LoggerId) :
    (RenderM.patch root mode rule logger m ctx s).Echoes G (G.On ctx.rendering n ctx.rendering) Eq
      ((do
        RenderM.setLogger logger
        v) ctx.voice (s.voice G.covered)) := by
  have hbracketed := bracketed hm hc hs root mode rule hbegin logger
  rw [RenderM.patch, bind_run]
  generalize RenderM.bracketed root mode rule logger m ctx s = o at hbracketed ⊢
  generalize (RenderM.setLogger logger >>= fun _ => v) ctx.voice (s.voice G.covered) = o'
    at hbracketed ⊢
  cases hbracketed with
  | done ht _ => exact flushQueue ht (.inr (List.Subset.refl _))
  | failed ht => exact .failed ht
  | broken hb => exact .broken hb

end Passes

section Coercions

def HeardAside (requeues : Prop) (template : Rendering) (v : RenderM Unit Unit) : Prop :=
  ∀ mayBreak, Voices (MarkupWriter.ground mayBreak requeues) 0 (template MarkupWriter) v Eq

theorem HeardAside.withParameter {requeues : Prop} {template : Rendering} {v : RenderM Unit Unit}
    (h : HeardAside requeues template v) (parameter : Option String) :
    HeardAside requeues (fun σ _ => RenderM.withParameter parameter (template σ)) v :=
  fun mayBreak => (h mayBreak).withParameter parameter

theorem HeardAside.enclosed {requeues : Prop} {template : Rendering} {v : RenderM Unit Unit}
    (h : HeardAside requeues template v) (kind : RenderedKind) :
    HeardAside requeues (KeyedRender.enclosed kind template) v := by
  intro mayBreak
  cases kind with
  | html => exact h mayBreak
  | attributes =>
    refine .andThen (.openElement _ _) fun _ => ?_
    rw [← bind_pure v]
    refine .bind (h mayBreak) fun _ _ _ => ?_
    refine .andThen (.emit trivial) fun _ => Voices.post (Q := fun _ _ => True) ?_ fun _ _ _ => rfl
    exact .emit trivial

theorem renderedText (kind : RenderedKind) {template : Rendering} {v : RenderM Unit Unit}
    (h : HeardAside G.requeues template v) :
    Voices G n (RenderM.renderedText kind template) (RenderM.aside v) fun _ _ => True := by
  intro base ctx s hs
  have hstart : (MarkupWriter.ground G.mayBreak G.requeues).On ctx.rendering 0 ctx.rendering
      ⟨.start .new, s.shared⟩ := by
    exact ⟨rfl, MarkupWriter.InBounds.new, hs.apart.imp_right fun hapart =>
      ⟨List.Subset.refl _, hapart.created, hapart.unknown, hapart.known_lt, nofun⟩⟩
  have hpatch := patch (h.enclosed kind G.mayBreak) rfl
    { ctx with watched := false, pinned := s.renderer.held ++ ctx.pinned } hstart
    MarkupWriter.root .inner .keyed (hstart.target.step _) s.renderer.logger?
  have resumed : ∀ {t : RenderState MarkupWriter},
      (MarkupWriter.ground G.mayBreak G.requeues).On ctx.rendering 0 ctx.rendering t →
      G.On base n ctx.rendering { s with shared := t.shared } := fun ht =>
    ⟨hs.layers, hs.target, by
      rcases hs.apart with hb | hapart
      · exact .inl hb
      · exact ht.apart.imp_right fun h =>
          ⟨hapart.base_subset, h.created, h.unknown, h.known_lt, hapart.unqueued⟩⟩
  have hlogger : (s.voice G.covered).renderer.logger? = s.renderer.logger? :=
    Renderer.logger?_voice hs.spoken
  rw [renderedText_eq]
  simp only [bind_run, RenderM.write, RenderM.logger?, RenderM.renderer, pure_run, detour,
    RenderM.aside, hlogger]
  change Outcome.Echoes _ _ _ _ (v ctx.voice ⟨.aside s.renderer.logger?, s.shared.voice⟩) at hpatch
  generalize RenderM.patch MarkupWriter.root .inner .keyed s.renderer.logger?
    (KeyedRender.enclosed kind template MarkupWriter)
    { ctx with watched := false, pinned := s.renderer.held ++ ctx.pinned }
    ⟨.start .new, s.shared⟩ = o at hpatch ⊢
  have hshared : (RenderState.voice G.covered s).shared = s.shared.voice := rfl
  rw [hshared]
  generalize v ctx.voice ⟨.aside s.renderer.logger?, s.shared.voice⟩ = o' at hpatch ⊢
  cases hpatch with
  | done ht _ => exact .of_voice (resumed ht) trivial rfl
  | failed ht => exact .failed (resumed ht)
  | broken hb => exact .broken hb

end Coercions

section Instructions

def Agreed (i : Instruction) (a b : Option Answer) : Prop := if i.isSpoken then a = b else b = none

theorem perform {i : Instruction} (hi : i ≠ .toDefault) (hr : G.requeues ∨ ¬ i.IsRequeue) :
    Voices G n i.perform i.voice (Agreed i) := by
  have mute : ∀ {m : RenderM τ (Option Answer)} {i : Instruction}, Silent G n m →
      (∀ a, Agreed i a none) → Voices G n m (Pure.pure none) (Agreed i) :=
    fun hm hq => .silently hm hq
  have onTarget : ∀ {m : RenderM τ (Option Answer)} {i : Instruction},
      (G.covered = false → Silent G n m) → (∀ a, Agreed i a none) →
      Voices G n (RenderM.onTarget m) (Pure.pure none) (Agreed i) :=
    fun hm hq => .silently (.onTarget hm) hq
  have still : ∀ {α : Type} {a : α}, Silent G n (Pure.pure a : RenderM τ α) := .pure trivial
  have parameter : ∀ template, Silent G n (templateText template : RenderM τ String) :=
    fun _ => .context fun _ => .pure trivial
  cases i with
  | toDefault => exact absurd rfl hi
  | kind => exact mute (.reading fun _ _ => still) fun _ => rfl
  | openElement name key => exact mute (.quiet (.openElement name key)) fun _ => rfl
  | closeElement => exact mute (.quiet (.emit? trivial)) fun _ => rfl
  | text value => exact mute (.quiet (.text value)) fun _ => rfl
  | pointer => exact mute (.quiet (.reading fun _ _ => still)) fun _ => rfl
  | current => exact mute (.quiet (.reading fun _ _ => still)) fun _ => rfl
  | parameter => exact mute (.context fun _ => .quiet (.text _)) fun _ => rfl
  | injected => exact mute (.context fun _ => .quiet (.text _)) fun _ => rfl
  | maybeSkip told => exact mute (.quiet (.maybeSkip told)) fun _ => rfl
  | pushKey fragment =>
    refine .bind (.pushKey fragment) ?_
    rintro previous _ rfl
    exact .bind (.saveKey previous) fun _ _ _ => .pure rfl
  | newKey fragment =>
    exact .renderer fun r _ hr => .pure (by rw [Renderer.newKey_voice hr]; rfl)
  | currentKey => exact .renderer fun r _ hr => .pure (by rw [Renderer.currentKey_voice hr]; rfl)
  | decodeCurrentKey =>
    exact .renderer fun r _ hr => .pure (by rw [Renderer.currentKey_voice hr]; rfl)
  | decodeKey encoded =>
    simp only [Instruction.perform, Instruction.voice]
    cases (Key.decode encoded).failure with
    | none => exact .pure rfl
    | some cause => exact .fail _
  | verifyLogOnly logOnly =>
    exact .returning (.verifyLogOnly logOnly) fun _ _ h => congrArg (some ∘ Answer.flag) h
  | evaluateLogging name arguments placeholder =>
    exact .returning (.evaluateLogging name arguments placeholder) fun _ _ h =>
      congrArg (some ∘ Answer.text) h
  | logger => exact .returning .logger? fun _ _ h => congrArg (some ∘ Answer.logger) h
  | isTruthy value => exact .pure rfl
  | requeue index =>
    exact mute (.quiet (requeue (hr.resolve_right fun h => h trivial) index)) fun _ => rfl
  | callText template escaper => exact mute (.quiet (parameter template)) fun _ => rfl
  | templateKind kind => exact .pure rfl
  | functionKind kind => exact .pure rfl
  | inspect node => exact onTarget (fun hc => .quiet (.inspect hc node)) fun _ => rfl
  | appendComment parent value =>
    exact onTarget (fun hc => .quiet (.callTarget hc trivial)) fun _ => rfl
  | setInnerMarkup node markup =>
    exact onTarget (fun hc => .quiet (.callTarget hc trivial)) fun _ => rfl
  | setComment node value =>
    exact onTarget (fun hc => .quiet (.callTarget hc trivial)) fun _ => rfl
  | pushManualKey fragment => exact .returning (.changeKeys _) fun _ _ _ => rfl
  | popManualKey => exact .returning (.changeKeys _) fun _ _ _ => rfl
  | popKey previous? =>
    cases previous? with
    | some previous => exact .returning (.changeKeys _) fun _ _ _ => rfl
    | none =>
      refine .bind .takeSavedKey ?_
      rintro previous _ rfl
      exact .returning (.changeKeys _) fun _ _ _ => rfl
  | setAttribute name value => exact mute (.quiet (.setAttribute name value)) fun _ => rfl
  | skip => exact mute (.quiet (.emit trivial)) fun _ => rfl
  | skipNode => exact mute (.quiet (.emit trivial)) fun _ => rfl
  | applyAttributes => exact mute (.quiet (.emit trivial)) fun _ => rfl
  | applyStatics attributes => exact mute (.quiet (.emit trivial)) fun _ => rfl
  | enter element logOnly => exact .returning (.callLogger _) fun _ _ _ => rfl
  | exit => exact .returning (.callLogger _) fun _ _ _ => rfl
  | setLogger logger => exact .returning (.setLogger logger) fun _ _ _ => rfl
  | comment value => exact mute (.quiet (.comment value)) fun _ => rfl
  | print value => exact mute (.quiet (.print value)) fun _ => rfl
  | printContent value => exact mute (.quiet (.printContent value)) fun _ => rfl
  | callHtml template =>
    exact mute (.andThen (parameter template) fun _ => .quiet (.text _)) fun _ => rfl
  | callAttributes template filter =>
    exact mute (.andThen (parameter template) fun _ => .quiet (.setAttributes _)) fun _ => rfl
  | callEscaped template escaper =>
    exact mute (.andThen (parameter template) fun _ => .quiet (.text _)) fun _ => rfl
  | printAttributes sanitized markup filter =>
    exact mute (.quiet (.setAttributes _)) fun _ => rfl

theorem stepInstruction {i : Instruction} (hi : i ≠ .toDefault)
    (hr : G.requeues ∨ ¬ i.IsRequeue) :
    Voices G n (RenderM.stepInstruction i)
      (do RenderM.answer (.instruction i) (← i.voice)) Eq := by
  refine .bind (perform hi hr) fun a b hab => ?_
  by_cases hspoken : i.isSpoken = true
  · rw [Agreed, if_pos hspoken] at hab
    subst hab
    cases a with
    | none => exact .pure rfl
    | some a => exact .log_spoken hspoken
  · rw [Agreed, if_neg hspoken] at hab
    subst hab
    exact .silently (.answer_unspoken (fun _ => by simpa [Event.isSpoken] using hspoken) a)
      fun _ => rfl

end Instructions

section Blocks

variable {body : Rendering} {v : RenderM Unit Unit} (haside : HeardAside G.requeues body v)
  (hbody : ∀ k, Voices G k (body τ) v Eq)
include haside hbody

theorem performBlock {b : Block} (hmuted : b ≠ .muted) (hattempt : b ≠ .attempt) :
    Voices G n (b.perform body) (b.voice v) fun _ _ => True := by
  have still : ∀ {α : Type} {a : α}, Silent G n (Pure.pure a : RenderM τ α) := .pure trivial
  have probed : Voices G n (RenderM.probe (body τ)) (RenderM.probe v) fun _ _ => True :=
    .probe (hbody _)
  have parametrized : ∀ parameter, Voices G n (RenderM.withParameter parameter (body τ)) v Eq :=
    fun parameter => (hbody n).withParameter parameter
  have turned : ∀ {α : Type} (kind : RenderedKind) (parameter : Option String)
      {next : String → RenderM τ α}, (∀ value, Silent G n (next value)) →
      Voices G n (RenderM.renderedText kind
        (fun σ _ => RenderM.withParameter parameter (body σ)) >>= next) (RenderM.aside v)
        fun _ _ => True := fun {α} kind parameter {next} hnext => by
    rw [← bind_pure (RenderM.aside v)]
    exact .bind (.renderedText kind (haside.withParameter parameter)) fun value _ _ => hnext value
  cases b with
  | muted => exact absurd rfl hmuted
  | attempt => exact absurd rfl hattempt
  | openServerElement name key parameters =>
    refine .bind (.openServerElement name key parameters) ?_
    rintro renders _ rfl
    refine .andThen (.answer_unspoken (fun _ => rfl) _) fun _ => ?_
    cases renders with
    | true => exact (hbody n).forgetting
    | false => exact still
  | probe => exact .returning probed fun _ _ _ => trivial
  | isTruthy => exact .returning probed fun _ _ _ => trivial
  | functionTruth kind => exact .returning probed fun _ _ _ => trivial
  | shielded => exact (Voices.shielded (hbody _)).forgetting
  | print => exact (hbody n).forgetting
  | printContent => exact (hbody n).forgetting
  | functionCall kind => exact (hbody n).forgetting
  | coerce kind => exact turned kind none fun _ => still
  | functionText kind => exact turned kind none fun _ => still
  | callHtml kind parameter =>
    cases kind with
    | html => exact (parametrized parameter).forgetting
    | attributes => exact (turned .attributes parameter fun _ => .quiet (.text _)).forgetting
  | callAttributes kind parameter filter =>
    cases kind with
    | attributes => exact (parametrized parameter).forgetting
    | html => exact (turned .html parameter fun _ => .setAttributes _).forgetting
  | callText kind parameter escaper =>
    exact (turned kind parameter fun _ => still).forgetting
  | callEscaped kind parameter escaper =>
    rw [Block.voice, ← bind_pure (RenderM.aside v)]
    exact .bind (turned kind parameter fun _ => still) fun _ _ _ => .quiet (.text _)
  | printAttributes kind filter =>
    cases kind with
    | attributes => exact (hbody n).forgetting
    | html => exact (turned .html none fun _ => .setAttributes _).forgetting

theorem stepBlock {b : Block} (hb : b ≠ .muted) :
    Voices G n (RenderM.stepBlock b body) (b.voice v) Eq := by
  by_cases hattempt : b = .attempt
  · subst hattempt
    unfold RenderM.stepBlock Block.perform Block.voice
    rw [bind_assoc]
    refine .bind (hbody n).attempt ?_
    rintro (e | ⟨⟩) _ rfl
    · exact .log_spoken rfl
    · exact .log_spoken rfl
  · rw [← bind_pure (b.voice v)]
    refine .bind (performBlock haside hbody hb hattempt) fun a _ _ => ?_
    refine .silently (.answer_unspoken (fun _ => ?_) a) fun _ => rfl
    cases b with
    | attempt => exact absurd rfl hattempt
    | _ => rfl

end Blocks

end

end Voices

/-- Wherever a script is rendered, it goes the way its voice goes. It queues known components only
where that may be. -/
theorem Script.voices {script : Script} (h : script.Stays) :
    ∀ {τ : Type} [RenderTarget τ] (G : Ground τ) (n : Nat),
      script.All (fun i => G.requeues ∨ ¬ i.IsRequeue) →
        Voices G n (script.run τ) script.voice Eq := by
  induction script with
  | done => exact fun _ _ _ => .pure rfl
  | step i next ih =>
    intro τ _ G n hr
    rw [run_step]
    have hstep := Voices.stepInstruction (G := G) (n := n) h.1 hr.1
    have hnext := Voices.bind hstep fun _ _ _ => ih h.2 G n hr.2
    rwa [bind_assoc] at hnext
  | block b body next ihbody ih =>
    intro τ _ G n hr
    rw [run_block]
    have haside : Voices.HeardAside G.requeues (fun σ _ => body.run σ) body.voice := fun mayBreak =>
      ihbody h.2.1 (MarkupWriter.ground mayBreak G.requeues) 0 hr.1
    exact .bind (Voices.stepBlock haside (fun k => ihbody h.2.1 G k hr.1) h.1) fun _ _ _ =>
      ih h.2.2 G n hr.2
  | component spec before body next ihbefore ihbody ih =>
    intro τ _ G n hr
    rw [run_component]
    exact .bind (Voices.stepComponent spec (ihbefore h.1 G n hr.1) (ihbody h.2.1 G n hr.2.1))
      fun _ _ _ => ih h.2.2 G n hr.2.2

end KeyedRender
