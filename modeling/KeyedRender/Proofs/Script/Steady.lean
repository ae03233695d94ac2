import KeyedRender.Proofs.Render.Contents

/-!
# Scripts keep stable conditions

Every script is steady: whatever it opens and leaves open, whatever it calls and wherever it
fails, it keeps each condition that single calls keep. The proof is an induction on the script,
for all targets at once, since content that is coerced runs on a target of its own.
-/
namespace KeyedRender

def Script.All (p : Instruction → Prop) : Script → Prop
  | done => True
  | step i next => p i ∧ next.All p
  | block _ body next => body.All p ∧ next.All p
  | component _ before body next => before.All p ∧ body.All p ∧ next.All p

theorem Script.all_trivial (script : Script) : script.All fun _ => True := by
  induction script with
  | done => trivial
  | step i next ih => exact ⟨trivial, ih⟩
  | block b body next ihb ih => exact ⟨ihb, ih⟩
  | component spec before body next iha ihb ih => exact ⟨iha, ihb, ih⟩

theorem Script.All.imp {p q : Instruction → Prop} {script : Script} (h : script.All p)
    (hpq : ∀ i, p i → q i) : script.All q := by
  induction script with
  | done => trivial
  | step i next ih => exact ⟨hpq i h.1, ih h.2⟩
  | block b body next ihb ih => exact ⟨ihb h.1, ih h.2⟩
  | component spec before body next iha ihb ih => exact ⟨iha h.1, ihb h.2.1, ih h.2.2⟩

def Instruction.IsFlat : Instruction → Prop
  | .openElement _ _ => False
  | .closeElement => False
  | .maybeSkip told => told = false
  | _ => True

def Instruction.MayFail : Instruction → Prop
  | .decodeKey _ => True
  | .toDefault => True
  | .verifyLogOnly _ => True
  | _ => False

namespace Stable

variable {τ : Type} [RenderTarget τ] {w : Scope τ} {n k : Nat} {J : Nat → Condition τ}
  {L : Nat → Prop}

omit [RenderTarget τ] in
theorem onTarget {m : RenderM τ (Option Answer)}
    (hm : n = 0 → Triple (w.exits n J L) (J k) m fun _ => J k) :
    Triple (w.exits n J L) (J k) (RenderM.onTarget m) fun _ => J k := by
  refine .bind_renderer fun r hr => ?_
  split
  · next hsome =>
    obtain ⟨t, ht⟩ := Option.isSome_iff_exists.1 hsome
    have hn : n = 0 := hr.symm.trans (Renderer.target?_eq_some_iff.1 ht).1
    exact (hm hn).pre fun _ _ hp => hp.2
  · exact .pure fun _ _ hp => hp.2

omit [RenderTarget τ] in
theorem returning {α β : Type} {m : RenderM τ α} {f : α → β}
    (hm : Triple (w.exits n J L) (J k) m fun _ => J k) :
    Triple (w.exits n J L) (J k) (m >>= fun a => pure (f a)) fun _ => J k :=
  .bind hm fun _ => .pure fun _ _ hp => hp

theorem calling (h : Stable w n J) (hn : n = 0) {i : Instruction} {call : TargetCall}
    (hi : w.step i) (hc : i.call? = some call) :
    Triple (w.exits n J L) (J k) (RenderM.callTarget call) fun _ => J k :=
  .callTarget fun _ _ hp => h.direct hn hp hc hi

theorem perform (h : Stable w n J) {i : Instruction} (hi : w.step i) (hflat : i.IsFlat)
    (hk : i.MayFail → L k) :
    Triple (w.exits n J L) (J k) i.perform fun _ => J k := by
  cases i with
  | openElement name key => exact hflat.elim
  | closeElement => exact hflat.elim
  | kind => exact returning (quiet Quiet.renderer)
  | text value => exact returning (h.writeText value)
  | pointer => exact returning (quiet Quiet.pointer?)
  | current => exact returning (quiet Quiet.current?)
  | parameter => exact .bind .context fun _ => returning (h.writeText _)
  | injected => exact .bind .context fun _ => returning (h.writeText _)
  | maybeSkip skip =>
    obtain rfl : skip = false := hflat
    exact returning (h.maybeSkip (k := k) false)
  | pushKey fragment =>
    exact .bind (quiet (Quiet.pushKey fragment)) fun previous =>
      .bind (quiet (Quiet.saveKey previous)) fun _ => .pure fun _ _ hp => hp
  | newKey fragment => exact returning (quiet Quiet.renderer)
  | currentKey => exact returning (quiet Quiet.renderer)
  | decodeCurrentKey => exact returning (quiet Quiet.renderer)
  | decodeKey encoded =>
    simp only [Instruction.perform]
    split
    · exact .fail fun _ _ hp => failed (hk trivial) hp
    · exact .pure fun _ _ hp => hp
  | toDefault => exact returning (toDefault (hk trivial))
  | verifyLogOnly logOnly => exact returning (verifyLogOnly (hk trivial) logOnly)
  | evaluateLogging name arguments placeholder =>
    exact returning (quiet (Quiet.evaluateLogging name arguments placeholder))
  | logger => exact returning (quiet Quiet.logger?)
  | isTruthy value => exact .pure fun _ _ hp => hp
  | requeue index => exact returning (quiet (Quiet.requeue index))
  | callText template escaper => exact returning (quiet (Quiet.templateText template))
  | templateKind kind => exact .pure fun _ _ hp => hp
  | functionKind kind => exact .pure fun _ _ hp => hp
  | inspect node =>
    exact onTarget fun hn => returning (.readTarget fun _ _ hp => h.inspected hn hp hi)
  | appendComment parent value => exact onTarget fun hn => returning (h.calling hn hi rfl)
  | setInnerMarkup node markup =>
    exact onTarget fun hn => .bind (h.calling hn hi rfl) fun _ => .pure fun _ _ hp => hp
  | setComment node value =>
    exact onTarget fun hn => .bind (h.calling hn hi rfl) fun _ => .pure fun _ _ hp => hp
  | pushManualKey fragment => exact returning (quiet (Quiet.pushManualKey fragment))
  | popManualKey => exact returning (quiet Quiet.popManualKey)
  | popKey previous? =>
    cases previous? with
    | some previous => exact returning (quiet (Quiet.popKey previous))
    | none =>
      exact .bind (quiet Quiet.takeSavedKey) fun previous =>
        returning (quiet (Quiet.popKey previous))
  | setAttribute name value => exact returning (h.setAttribute name value)
  | skip => exact returning (h.stays .skip trivial)
  | skipNode => exact returning (h.stays .skipNode trivial)
  | applyAttributes => exact returning (h.stays .applyAttributes trivial)
  | applyStatics attributes => exact returning (h.stays (.applyStatics attributes) trivial)
  | enter element logOnly => exact returning (quiet (Quiet.callLogger _))
  | exit => exact returning (quiet (Quiet.callLogger _))
  | setLogger logger => exact returning (quiet (Quiet.setLogger logger))
  | comment value => exact returning (h.comment value)
  | print value => exact returning (h.print value)
  | printContent value => exact returning (h.printContent value)
  | callHtml template =>
    exact .bind (quiet (Quiet.templateText template)) fun _ => returning (h.writeText _)
  | callAttributes template filter =>
    exact .bind (quiet (Quiet.templateText template)) fun _ => returning (h.printAttributes _ _ _)
  | callEscaped template escaper =>
    exact .bind (quiet (Quiet.templateText template)) fun _ => returning (h.writeText _)
  | printAttributes sanitized markup filter => exact returning (h.printAttributes _ _ _)

theorem serverBlock (h : Stable w n J) (hk : L (inside n k)) {name key : String}
    {parameters : Option Payload} {body : Rendering}
    (hbody : Triple (w.exits n J L) (J (inside n k)) (body τ) fun _ => J k) :
    Triple (w.exits n J L) (J k) (Block.perform (.openServerElement name key parameters) body)
      fun _ => J k := by
  refine .bind (h.openServerElement hk name key parameters) fun renders => ?_
  refine .bind (Quiet.answer _ _).triple fun _ => ?_
  cases renders with
  | true => exact .bind hbody fun _ => .pure fun _ _ hp => hp
  | false => exact .pure fun _ _ hp => hp

section Blocks

variable {allowed : Instruction → Prop} {body : Rendering} (h : Stable w n J)
  (ha : ∀ i, allowed i → w.step i) (hr : Steady allowed body) (hk : L k)
include h ha hr hk

theorem performBlock {b : Block} (hattempt : b ≠ .attempt)
    (hserver : ∀ name key parameters, b ≠ .openServerElement name key parameters)
    (hin : Triple (w.exits n J L) (J k) (body τ) fun _ => J k) :
    Triple (w.exits n J L) (J k) (b.perform body) fun _ => J k := by
  have under : ∀ m : Nat, m ≠ 0 → Triple ⟨w.fault, m, J k⟩ (J k) (body τ) fun _ => J k :=
    fun m hm => hr.above h ha hm k
  have probed : Triple (w.exits n J L) (J k) (RenderM.probe (body τ)) fun _ => J k :=
    probe hk (under _ (Nat.succ_ne_zero n))
  cases b with
  | openServerElement name key parameters => exact absurd rfl (hserver name key parameters)
  | attempt => exact absurd rfl hattempt
  | probe => exact returning probed
  | coerce kind => exact returning (h.renderedText ha hr hk kind)
  | muted => exact returning (muted hk under)
  | shielded => exact returning (shielded hk (under _ (Nat.succ_ne_zero n)))
  | isTruthy => exact returning probed
  | print => exact returning hin
  | printContent => exact returning hin
  | callHtml kind parameter =>
    exact returning (h.callHtml ha (hr.withParameter parameter) hk kind (.withContext hin _))
  | callAttributes kind parameter filter =>
    exact returning
      (h.callAttributes ha (hr.withParameter parameter) hk kind filter (.withContext hin _))
  | callText kind parameter escaper =>
    exact returning (h.callText ha (hr.withParameter parameter) hk kind escaper)
  | callEscaped kind parameter escaper =>
    exact .bind (h.callText ha (hr.withParameter parameter) hk kind _) fun _ =>
      returning (h.writeText _)
  | functionText kind => exact returning (h.renderedText ha hr hk kind)
  | functionTruth kind => exact returning probed
  | functionCall kind => exact returning hin
  | printAttributes kind filter => exact returning (h.printRendered ha hr hk kind filter hin)

end Blocks

end Stable

theorem Stable.step {τ : Type} [RenderTarget τ] {w : Scope τ} {n : Nat} {I : Condition τ}
    (h : Stable w n fun _ => I) {i : Instruction} (hi : w.step i) :
    Triple (w.exits n (fun _ => I) fun _ => True) I i.perform fun _ => I := by
  have flat : i.IsFlat → Triple (w.exits n (fun _ => I) fun _ => True) I i.perform fun _ => I :=
    fun hflat => h.perform (k := 0) hi hflat fun _ => trivial
  cases i with
  | openElement name key =>
    exact .bind (h.openElement (k := 0) name key) fun _ => .pure fun _ _ hp => hp.1
  | closeElement => exact .bind (h.closeElement (k := 0)) fun _ => .pure fun _ _ hp => hp
  | maybeSkip skip =>
    have hskip : Triple (w.exits n (fun _ => I) fun _ => True) I (RenderM.maybeSkip skip)
        fun _ => I := h.maybeSkip (k := 0) skip
    exact .bind hskip fun _ => .pure fun _ _ hp => hp
  | _ => exact flat trivial

theorem Stable.stepBlock {τ : Type} [RenderTarget τ] {w : Scope τ} {n : Nat} {I : Condition τ}
    {allowed : Instruction → Prop} {body : Rendering} (h : Stable w n fun _ => I)
    (ha : ∀ i, allowed i → w.step i) (hn : n = 0 → ∀ node, w.node node) (hr : Steady allowed body)
    (b : Block) : Triple (w.exits n (fun _ => I) fun _ => True) I (b.perform body) fun _ => I := by
  have hbody : Triple ⟨w.fault, n, I⟩ I (body τ) fun _ => I := hr τ w n I ha hn h
  have hin : Triple (w.exits n (fun _ => I) fun _ => True) I (body τ) fun _ => I :=
    hbody.failing fun _ _ hp => ⟨0, trivial, hp⟩
  by_cases hattempt : b = .attempt
  · subst hattempt
    have hrun : Triple (w.exits n (fun _ => I) fun _ => True) I (RenderM.attempt (body τ))
        fun _ => I := by
      have hattempt := Triple.attempt (x := w.exits n (fun _ => I) fun _ => True) hbody
      refine hattempt.post fun result t g hp => ?_
      cases result <;> exact hp
    refine .bind hrun fun result => ?_
    cases result <;> exact .pure fun _ _ hp => hp
  · by_cases hserver : ∃ name key parameters, b = .openServerElement name key parameters
    · obtain ⟨name, key, parameters, rfl⟩ := hserver
      exact h.serverBlock (k := 0) trivial hin
    · exact h.performBlock (k := 0) ha hr trivial hattempt
        (fun name key parameters hb => hserver ⟨name, key, parameters, hb⟩) hin

theorem Script.steady {allowed : Instruction → Prop} (s : Script) (hs : s.All allowed) :
    Steady allowed fun τ _ => s.run τ := by
  induction s with
  | done => exact fun τ _ w n I _ _ _ => .pure fun _ _ hp => hp
  | step i next ih =>
    intro τ _ w n I ha hn h
    refine .bind (h.step (ha i hs.1)).constant fun a => ?_
    exact .bind (Quiet.answer _ a).triple fun _ => ih hs.2 τ w n I ha hn h
  | block b body next ihb ih =>
    intro τ _ w n I ha hn h
    refine .bind (h.stepBlock ha hn (ihb hs.1) b).constant fun a => ?_
    exact .bind (Quiet.answer _ a).triple fun _ => ih hs.2 τ w n I ha hn h
  | component spec before body next ihbefore ihbody ih =>
    intro τ _ w n I ha hn h
    have hbefore : Triple (w.exits n (fun _ => I) fun _ => True) I (before.run τ) fun _ => I :=
      (ihbefore hs.1 τ w n I ha hn h).failing fun _ _ hp => ⟨0, trivial, hp⟩
    have hbody : Triple (w.exits n (fun _ => I) fun _ => True) I (body.run τ) fun _ => I :=
      (ihbody hs.2.1 τ w n I ha hn h).failing fun _ _ hp => ⟨0, trivial, hp⟩
    have hrest : ∀ report, Triple ⟨w.fault, n, I⟩ I (do
        RenderM.answer (.component spec) (some (.component report))
        next.run τ) fun _ => I := fun report =>
      .bind (Quiet.answer _ _).triple fun _ => ih hs.2.2 τ w n I ha hn h
    refine .bind (h.renderComponent (k := 0) (fun node _ h0 => hn h0 node) hbefore hbody).constant
      fun id? => ?_
    cases id? with
    | none => exact hrest none
    | some id => exact .bind (h.introduce (k := 0) id).constant hrest

def Scope.all (τ : Type) : Scope τ :=
  ⟨fun _ => True, fun _ => True, fun _ => True, fun _ => True, fun _ _ => True⟩

theorem stable_size {τ : Type} [RenderTarget τ] (n size : Nat) :
    Stable (Scope.all τ) n fun _ _ g => size ≤ g.components.size where
  reentered _ := trivial
  grows h he := Nat.le_trans h he.size
  created _ := trivial
  opened _ _ _ _ _ _ h := (Allows.any _).mono fun _ _ => ⟨h, fun _ _ => ⟨trivial, trivial⟩⟩
  closed _ _ _ _ h := (Allows.any _).mono fun _ _ => h
  wrote _ _ _ _ _ h := (Allows.any _).mono fun _ _ => ⟨h, fun _ _ => trivial⟩
  assigned _ _ _ _ _ _ h := (Allows.any _).mono fun _ _ => ⟨h, fun _ _ => trivial⟩
  stayed _ _ _ _ _ _ h := (Allows.any _).mono fun _ _ => h
  appended _ _ _ _ _ _ h _ := (Allows.any _).mono fun _ _ => h
  filled _ _ _ _ _ _ h _ := (Allows.any _).mono fun _ _ => ⟨h, trivial⟩
  recorded _ _ _ _ _ _ h _ _ := h
  described _ _ _ _ _ _ _ := ⟨.any _, .any _⟩
  found _ _ _ _ _ _ _ _ _ := trivial
  attached _ _ _ _ _ _ _ h _ _ _ := by rwa [size_attachedRegistry]
  direct _ _ _ _ _ _ h _ _ := (Allows.any _).mono fun _ _ => h
  inspected _ _ _ _ _ _ _ := .any _

theorem Script.keeps_size {τ : Type} [RenderTarget τ] (script : Script) (n size : Nat) :
    Triple ((Scope.all τ).exits n (fun _ _ g => size ≤ g.components.size) fun _ => True)
      (fun _ g => size ≤ g.components.size) (script.run τ)
      fun _ _ g => size ≤ g.components.size := by
  have hsteady := script.steady script.all_trivial τ (Scope.all τ) n _ (fun _ _ => trivial)
    (fun _ _ => trivial) (stable_size n size)
  exact hsteady.failing fun _ _ hsize => ⟨0, trivial, hsize⟩

end KeyedRender
