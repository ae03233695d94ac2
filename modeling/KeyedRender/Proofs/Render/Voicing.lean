import KeyedRender.Proofs.Render.Ground

/-!
# Renderings and their voice

A rendering has a voice if it does to what is heard what its voice does, whatever it does to the
target. Its parts have voices of their own, and what changes the target is silent.
-/
namespace KeyedRender

section

variable {τ α β γ δ : Type} [RenderTarget τ]

inductive Outcome.Echoes (G : Ground τ) (P : RenderState τ → Prop) (Q : α → β → Prop) :
    Outcome (RenderState τ) α → Outcome (RenderState Unit) β → Prop
  | done {a b s} : P s → Q a b → Echoes G P Q (.done a s) (.done b (s.voice G.covered))
  | failed {e s} : P s → Echoes G P Q (.failed e s) (.failed e (s.voice G.covered))
  | broken {f o} : G.mayBreak → Echoes G P Q (.broken f) o

theorem Outcome.Echoes.of_voice {G : Ground τ} {P : RenderState τ → Prop} {Q : α → β → Prop}
    {a : α} {b : β} {s : RenderState τ} {u : RenderState Unit} (hs : P s) (hq : Q a b)
    (hu : u = s.voice G.covered) : (Outcome.done a s).Echoes G P Q (.done b u) := by
  subst hu
  exact .done hs hq

/-- A rendering goes the way its voice goes. -/
def Voices (G : Ground τ) (n : Nat) (m : RenderM τ α) (v : RenderM Unit β) (Q : α → β → Prop) :
    Prop :=
  ∀ base ctx s, G.On base n ctx.rendering s →
    (m ctx s).Echoes G (G.On base n ctx.rendering) Q (v ctx.voice (s.voice G.covered))

abbrev Silent (G : Ground τ) (n : Nat) (m : RenderM τ α) : Prop :=
  Voices G n m (pure ()) fun _ _ => True

namespace Voices

open RenderM

variable {G : Ground τ} {n : Nat} {m : RenderM τ α} {v : RenderM Unit γ}
  {Q Q' : α → γ → Prop}

theorem pure {a : α} {b : γ} (h : Q a b) : Voices G n (Pure.pure a) (Pure.pure b) Q :=
  fun _ _ _ hs => .done hs h

theorem post (h : Voices G n m v Q) (hQ : ∀ a b, Q a b → Q' a b) : Voices G n m v Q' := by
  intro base ctx s hs
  have hm := h base ctx s hs
  generalize m ctx s = o at hm
  generalize v ctx.voice (s.voice G.covered) = o' at hm
  cases hm with
  | done hs hq => exact .done hs (hQ _ _ hq)
  | failed hs => exact .failed hs
  | broken hb => exact .broken hb

theorem bind {next : α → RenderM τ β} {next' : γ → RenderM Unit δ} {Q' : β → δ → Prop}
    (hm : Voices G n m v Q) (hn : ∀ a b, Q a b → Voices G n (next a) (next' b) Q') :
    Voices G n (m >>= next) (v >>= next') Q' := by
  intro base ctx s hs
  have hm := hm base ctx s hs
  rw [bind_run, bind_run]
  generalize m ctx s = o at hm
  generalize v ctx.voice (s.voice G.covered) = o' at hm
  cases hm with
  | done ht hq => exact hn _ _ hq base ctx _ ht
  | failed ht => exact .failed ht
  | broken hb => exact .broken hb

theorem following {next : α → RenderM τ β} {v : RenderM Unit δ} {Q : α → Unit → Prop}
    {Q' : β → δ → Prop} (hm : Voices G n m (Pure.pure ()) Q)
    (hn : ∀ a, Q a () → Voices G n (next a) v Q') : Voices G n (m >>= next) v Q' :=
  bind hm fun a _ => hn a

theorem andThen {next : α → RenderM τ β} {v : RenderM Unit δ} {Q' : β → δ → Prop}
    (hm : Silent G n m) (hn : ∀ a, Voices G n (next a) v Q') : Voices G n (m >>= next) v Q' :=
  following hm fun a _ => hn a

theorem returning {v : RenderM Unit β} {f : α → γ} {f' : β → δ} {Q : α → β → Prop}
    {Q' : γ → δ → Prop} (hm : Voices G n m v Q) (hf : ∀ a b, Q a b → Q' (f a) (f' b)) :
    Voices G n (m >>= fun a => Pure.pure (f a)) (v >>= fun b => Pure.pure (f' b)) Q' :=
  bind hm fun a b hq => .pure (hf a b hq)

theorem forgetting {f : α → β} (hm : Voices G n m v Q) :
    Voices G n (m >>= fun a => Pure.pure (f a)) v fun _ _ => True := by
  rw [← bind_pure v]
  exact returning hm fun _ _ _ => trivial

theorem silently {b : γ} (hm : Silent G n m) (hq : ∀ a, Q a b) :
    Voices G n m (Pure.pure b) Q := by
  rw [← bind_pure m]
  exact andThen hm fun a => .pure (hq a)

theorem quiet {f : α → β} (hm : Silent G n m) :
    Silent G n (m >>= fun a => Pure.pure (f a)) := andThen hm fun _ => .pure trivial

theorem fail (e : RenderError) : Voices G n (RenderM.fail e) (RenderM.fail e) Q :=
  fun _ _ _ hs => .failed hs

theorem ite {c : Prop} [Decidable c] {m' : RenderM τ α} (hm : c → Voices G n m v Q)
    (hm' : ¬ c → Voices G n m' v Q) : Voices G n (if c then m else m') v Q := by
  split
  · next h => exact hm h
  · next h => exact hm' h

theorem attempt {m : RenderM τ Unit} {v : RenderM Unit Unit} (h : Voices G n m v Eq) :
    Voices G n (RenderM.attempt m) (RenderM.attempt v) Eq := by
  intro base ctx s hs
  have hm := h base ctx s hs
  unfold RenderM.attempt
  generalize m ctx s = o at hm
  generalize v ctx.voice (s.voice G.covered) = o' at hm
  cases hm with
  | done ht _ => exact .done ht rfl
  | failed ht => exact .done ht rfl
  | broken hb => exact .broken hb

theorem resume (result : Except RenderError Unit) :
    Voices G n (RenderM.resume result) (RenderM.resume result) Eq := by
  cases result with
  | ok a => exact .pure rfl
  | error e => exact .fail e

theorem withParameter (h : Voices G n m v Q) (parameter : Option String) :
    Voices G n (RenderM.withParameter parameter m) v Q :=
  fun base ctx s hs => h base { ctx with parameter := parameter.getD ctx.parameter } s
    ⟨hs.layers, hs.target, hs.apart⟩

theorem context {next : Context → RenderM τ α} (h : ∀ c, Voices G n (next c) v Q) :
    Voices G n (RenderM.context >>= next) v Q := fun base ctx s hs => h ctx base ctx s hs

theorem reading {next : Renderer τ → RenderM τ α}
    (h : ∀ r : Renderer τ, r.layers.length = (if G.covered then n + 1 else n) →
      Voices G n (next r) v Q) : Voices G n (RenderM.renderer >>= next) v Q :=
  fun base ctx s hs => h s.renderer hs.layers base ctx s hs

theorem renderer {next : Renderer τ → RenderM τ α} {next' : Renderer Unit → RenderM Unit γ}
    (h : ∀ r : Renderer τ, r.layers.length = (if G.covered then n + 1 else n) →
      (G.covered = true → r.layers ≠ []) →
      Voices G n (next r) (next' (r.voice G.covered)) Q) :
    Voices G n (RenderM.renderer >>= next) (RenderM.renderer >>= next') Q :=
  fun base ctx s hs => h s.renderer hs.layers hs.spoken base ctx s hs

theorem changeRenderer {change : Renderer τ → Renderer τ} {change' : Renderer Unit → Renderer Unit}
    (hlayers : ∀ r, (change r).layers.length = r.layers.length)
    (hpass : ∀ r, (change r).pass.target = r.pass.target ∧ (change r).pass.queue = r.pass.queue)
    (hvoice : ∀ r : Renderer τ, (G.covered = true → r.layers ≠ []) →
      (change r).voice G.covered = change' (r.voice G.covered)) :
    Voices G n (RenderM.changeRenderer change) (RenderM.changeRenderer change') Eq := by
  intro base ctx s hs
  have ht : G.On base n ctx.rendering { s with renderer := change s.renderer } :=
    hs.congr (hlayers _) (by rw [(hpass _).1]; exact hs.target) rfl (hpass _).2
  refine .of_voice ht rfl ?_
  simp only [RenderState.voice, hvoice _ hs.spoken]

theorem unheard {change : Renderer τ → Renderer τ}
    (hlayers : ∀ r, (change r).layers.length = r.layers.length)
    (hpass : ∀ r, (change r).pass = r.pass)
    (hvoice : ∀ r : Renderer τ, (change r).voice G.covered = r.voice G.covered) :
    Silent G n (RenderM.changeRenderer change) := by
  intro base ctx s hs
  refine .of_voice (hs.congr (hlayers _) ?_ rfl ?_) trivial ?_
  · rw [hpass]
    exact hs.target
  · rw [hpass]
  · simp only [RenderState.voice, hvoice]

theorem markRendered : Silent G n (RenderM.changeRenderer Renderer.markRendered) :=
  unheard Renderer.length_layers_markRendered Renderer.pass_markRendered
    fun _ => Renderer.voice_markRendered

theorem changeKeys (change : Key.Stack → Key.Stack) :
    Voices G n (RenderM.changeRenderer (Renderer.changeKeys change))
      (RenderM.changeRenderer (Renderer.changeKeys change)) Eq := by
  refine changeRenderer (Renderer.length_layers_changeKeys · change) (fun r => ?_)
    fun r hr => Renderer.voice_changeKeys hr change
  obtain ⟨pass, _ | ⟨_ | _, below⟩⟩ := r <;> exact ⟨rfl, rfl⟩

theorem setLogger (logger : Option LoggerId) :
    Voices G n (RenderM.setLogger logger) (RenderM.setLogger logger) Eq := by
  refine changeRenderer (Renderer.length_layers_setLogger · logger) (fun r => ?_)
    fun r hr => Renderer.voice_setLogger hr logger
  obtain ⟨pass, _ | ⟨_ | _, below⟩⟩ := r <;> exact ⟨rfl, rfl⟩

theorem log_spoken {event : Event} (h : event.isSpoken = true) :
    Voices G n (RenderM.log event) (RenderM.log event) Eq := by
  intro base ctx s hs
  refine .of_voice (hs.changeShared rfl) rfl ?_
  simp only [RenderState.voice, Shared.voice_push, if_pos h]

theorem log_unspoken {event : Event} (h : event.isSpoken = false) :
    Silent G n (RenderM.log event) := by
  intro base ctx s hs
  refine .of_voice (hs.changeShared rfl) trivial ?_
  simp only [RenderState.voice, Shared.voice_push, h, Bool.false_eq_true, if_false]

theorem answer_unspoken {question : Question}
    (h : ∀ a, (Event.answer question a).isSpoken = false) (a : Option Answer) :
    Silent G n (RenderM.answer question a) := by
  cases a with
  | none => exact .pure trivial
  | some a => exact .log_unspoken (h a)

theorem logger? : Voices G n (RenderM.logger? (τ := τ)) (RenderM.logger? (τ := Unit)) Eq :=
  renderer fun _ _ hr => .pure (Renderer.logger?_voice hr).symm

theorem callLogger (call : LoggerCall) :
    Voices G n (RenderM.callLogger call) (RenderM.callLogger call) Eq := by
  refine .bind logger? ?_
  rintro logger _ rfl
  cases logger with
  | none => exact .pure rfl
  | some logger => exact .log_spoken rfl

theorem verifyLogOnly (logOnly : Bool) :
    Voices G n (RenderM.verifyLogOnly logOnly) (RenderM.verifyLogOnly logOnly) Eq := by
  refine .renderer fun r _ hr => ?_
  rw [Renderer.logger?_voice hr]
  by_cases hprobe : r.kind = .probe
  · rw [if_pos hprobe, if_pos ((Renderer.kind_voice hr).2 hprobe)]
    exact .fail _
  · rw [if_neg hprobe, if_neg fun h => hprobe ((Renderer.kind_voice hr).1 h)]
    split
    · exact .fail _
    · exact .pure rfl

theorem evaluateLogging (name : String) (arguments : List Payload) (placeholder : String) :
    Voices G n (RenderM.evaluateLogging name arguments placeholder)
      (RenderM.evaluateLogging name arguments placeholder) Eq := by
  refine .bind logger? ?_
  rintro logger _ rfl
  cases logger with
  | none => exact .pure rfl
  | some logger =>
    refine .bind (.log_spoken rfl) fun _ _ _ => ?_
    exact fun base ctx s hs => .done hs rfl

theorem pushKey (fragment : Key.Fragment) :
    Voices G n (RenderM.pushKey fragment) (RenderM.pushKey fragment) Eq := by
  refine .renderer fun r _ hr => ?_
  rw [Renderer.currentKey_voice hr]
  exact .returning (.changeKeys _) fun _ _ _ => rfl

theorem saveKey (key : String) : Voices G n (RenderM.saveKey key) (RenderM.saveKey key) Eq :=
  fun _ _ _ hs => .of_voice (hs.changeShared rfl) rfl rfl

theorem takeSavedKey :
    Voices G n (RenderM.takeSavedKey (τ := τ)) (RenderM.takeSavedKey (τ := Unit)) Eq :=
  fun _ _ _ hs => .of_voice (hs.changeShared rfl) rfl rfl

theorem layered (layer : Layer) {m : RenderM τ Unit} {v : RenderM Unit Unit}
    (h : Voices G (n + 1) m v Eq) :
    Voices G n (RenderM.layered layer m) (RenderM.layered layer.hush v) fun a b => a.1 = b.1 := by
  intro base ctx s hs
  have hpushed : G.On base (n + 1) ctx.rendering { s with renderer := s.renderer.push layer } := by
    refine ⟨?_, hs.target, hs.apart⟩
    have hlayers := hs.layers
    simp only [Renderer.push, List.length_cons, hlayers]
    split <;> rfl
  have popped : ∀ t : RenderState τ, G.On base (n + 1) ctx.rendering t →
      G.On base n ctx.rendering { t with renderer := t.renderer.pop } ∧
        RenderState.voice G.covered { t with renderer := t.renderer.pop } =
          ⟨(t.renderer.voice G.covered).pop, t.shared.voice⟩ := by
    intro t ht
    have hlayers := ht.layers
    have hne : t.renderer.layers ≠ [] := by
      intro hnil
      rw [hnil] at hlayers
      split at hlayers <;> cases hlayers
    refine ⟨⟨?_, ht.target, ht.apart⟩, ?_⟩
    · simp only [Renderer.pop, List.length_tail, hlayers]
      split <;> rfl
    · simp only [RenderState.voice, Renderer.voice_pop hne]
  have hm := h base ctx _ hpushed
  simp only [RenderM.layered, bind_run, RenderM.changeRenderer, RenderM.attempt, RenderM.renderer,
    pure_run]
  change Outcome.Echoes G _ _ _ (v ctx.voice ⟨(s.renderer.voice G.covered).push layer.hush,
    s.shared.voice⟩) at hm
  simp only [RenderState.voice]
  generalize m ctx { s with renderer := s.renderer.push layer } = o at hm
  generalize v ctx.voice ⟨(s.renderer.voice G.covered).push layer.hush, s.shared.voice⟩ = o' at hm
  cases hm with
  | done ht _ => exact .of_voice (popped _ ht).1 rfl (popped _ ht).2.symm
  | failed ht => exact .of_voice (popped _ ht).1 rfl (popped _ ht).2.symm
  | broken hb => exact .broken hb

theorem shielded {m : RenderM τ Unit} {v : RenderM Unit Unit} (h : Voices G (n + 1) m v Eq) :
    Voices G n (RenderM.shielded m) (RenderM.shielded v) Eq := by
  refine .bind logger? ?_
  rintro logger _ rfl
  refine .bind (.layered (.muted .empty logger) h) ?_
  rintro ⟨result, _⟩ ⟨_, _⟩ rfl
  exact .resume result

theorem probe {m : RenderM τ Unit} {v : RenderM Unit Unit} (h : Voices G (n + 1) m v Eq) :
    Voices G n (RenderM.probe m) (RenderM.probe v) fun _ _ => True := by
  refine .bind (.layered (.probe false) h) ?_
  rintro ⟨result, _⟩ ⟨_, _⟩ rfl
  exact .bind (.resume result) fun _ _ _ => .pure trivial

section Target

theorem callTarget (hc : G.covered = false) {call : TargetCall} (hcall : call.IsInner) :
    Silent G n (RenderM.callTarget call) := by
  intro base ctx s hs
  obtain ⟨node, t, hrun, ht, hvoice, -⟩ | ⟨hb, f, hrun⟩ :=
    hs.callTarget (G.calls hc hcall hs.target) ctx
  · rw [hrun]
    exact .of_voice ht trivial hvoice.symm
  · rw [hrun]
    exact .broken hb

theorem uncovered {r : Renderer τ} (hr : r.layers.length = if G.covered then n + 1 else n)
    (h : r.layers = []) : G.covered = false := by
  cases hc : G.covered with
  | true => simp [h, hc] at hr
  | false => rfl

theorem answering {call : TargetCall} (hcall : call.IsInner) :
    Voices G n (RenderM.emit? call) (Pure.pure ()) fun answer _ =>
      answer ≠ none → G.covered = false := by
  refine .reading fun r hr => ?_
  cases hkind : r.kind with
  | default =>
    have hc := uncovered hr (RenderM.layers_of_kind_eq_default hkind)
    exact (callTarget hc hcall).post fun _ _ _ _ => hc
  | muted => exact .pure fun h => absurd rfl h
  | probe => exact .andThen .markRendered fun _ => .pure fun h => absurd rfl h

theorem emit? {call : TargetCall} (hcall : call.IsInner) : Silent G n (RenderM.emit? call) :=
  (answering hcall).post fun _ _ _ => trivial

theorem emit {call : TargetCall} (hcall : call.IsInner) : Silent G n (RenderM.emit call) :=
  .quiet (emit? hcall)

theorem openElement (name key : String) : Silent G n (RenderM.openElement name key) :=
  .reading fun _ _ => emit? trivial

theorem text (value : String) : Silent G n (RenderM.text value) := emit? trivial

theorem setAttribute (name value : String) : Silent G n (RenderM.setAttribute name value) := by
  refine .andThen (emit trivial) fun _ => ?_
  exact .ite (fun _ => emit trivial) fun _ => .ite (fun _ => emit trivial) fun _ => .pure trivial

theorem setAttributes (attributes : List (String × String)) :
    Silent G n (RenderM.setAttributes attributes) := by
  induction attributes with
  | nil => exact .pure trivial
  | cons a rest ih => exact .andThen (setAttribute _ _) fun _ => ih

theorem maybeSkip (told : Bool) : Silent G n (RenderM.maybeSkip told) := by
  refine .reading fun r _ => ?_
  cases r.kind with
  | default =>
    exact .ite (fun _ => .andThen (emit trivial) fun _ => .quiet (emit trivial)) fun _ =>
      .pure trivial
  | muted => exact .pure trivial
  | probe => exact .quiet .markRendered

theorem changeRecord (hc : G.covered = false) (node : NodeId)
    (change : NodeRecord → NodeRecord) : Silent G n (RenderM.changeRecord node change) :=
  fun _ _ _ hs => .of_voice (hs.congr rfl (G.records hc node change hs.target) rfl rfl) trivial rfl

theorem targetDocument : Silent G n (RenderM.targetDocument (τ := τ)) :=
  .reading fun _ _ => .pure trivial

theorem writeBlob (hc : G.covered = false) (node : NodeId) (markup : String) :
    Silent G n (RenderM.writeBlob node markup) :=
  .andThen targetDocument fun _ =>
    .ite (fun _ => .andThen (emit trivial) fun _ => changeRecord hc _ _) fun _ => .pure trivial

theorem printContent (value : Printable) : Silent G n (RenderM.printContent value) :=
  .quiet (text _)

theorem print (value : Printable) : Silent G n (RenderM.print value) := by
  cases value with
  | sanitizedHtml markup =>
    refine .ite (fun _ => ?_) fun _ => printContent _
    have close : Silent G n (do
        RenderM.emit (τ := τ) .skip
        RenderM.emit .closeElement) := .andThen (emit trivial) fun _ => emit trivial
    have hblob : Voices G n (RenderM.openElement "html-blob" "") (Pure.pure ()) fun answer _ =>
        answer ≠ none → G.covered = false := .reading fun _ _ => answering trivial
    refine .following hblob fun blob hc => ?_
    cases blob with
    | none => exact close
    | some node => exact .andThen (writeBlob (hc nofun) node markup) fun _ => close
  | _ => exact printContent _

theorem comment (value : String) : Silent G n (RenderM.comment value) := by
  refine .andThen (.reading fun _ _ => .pure trivial) fun current => ?_
  cases current with
  | none => exact .pure trivial
  | some element =>
    refine .andThen targetDocument fun document => ?_
    cases (document.nextSibling? element).filter document.isComment with
    | some existing => exact .andThen (emit trivial) fun _ => emit trivial
    | none => exact .andThen (emit trivial) fun _ => emit trivial

theorem onTarget {m : RenderM τ (Option Answer)} (h : G.covered = false → Silent G n m) :
    Silent G n (RenderM.onTarget m) := by
  refine .reading fun r hr => .ite (fun hsome => ?_) fun _ => .pure trivial
  obtain ⟨t, ht⟩ := Option.isSome_iff_exists.1 hsome
  exact h (uncovered hr (List.eq_nil_of_length_eq_zero (Renderer.target?_eq_some_iff.1 ht).1))

theorem inspect (hc : G.covered = false) (node : NodeId) :
    Silent G n (RenderM.readTarget fun target : τ => RenderM.inspectTarget target node) := by
  intro base ctx s hs
  have hallows := G.inspects hc node hs.target
  simp only [RenderM.readTarget, bind_run, RenderM.renderer]
  cases hread : RenderM.inspectTarget s.renderer.pass.target node with
  | error f =>
    rw [hread] at hallows
    exact .broken hallows
  | ok a => exact .of_voice hs trivial rfl

end Target

end Voices

end

end KeyedRender
