import KeyedRender.Proofs.Document.Idle
import KeyedRender.Proofs.Render.Success

/-!
# Plans

The keys that a script opens elements with depend on the keys in force where it begins, and on
nothing that is on the target. A script of plain steps, prints and callbacks can therefore be read
before it runs: as a tree of what it does to each element that it opens. Calls that follow such a
plan are what the script does on a keyed target.
-/
namespace KeyedRender

/-- What is done to one element: assignments to it, and its children in order. -/
inductive Plan
  | done
  | assign (assignment : Assignment) (next : Plan)
  | text (value : String) (next : Plan)
  | blob (key markup : String) (next : Plan)
  | element (name key : String) (inner next : Plan)

def Plan.assigned : Plan → List Assignment
  | .done => []
  | .assign assignment next => assignment :: next.assigned
  | .text _ next => next.assigned
  | .blob _ _ next => next.assigned
  | .element _ _ _ next => next.assigned

def Plan.IsLead : Plan → Prop
  | .done => True
  | .assign _ next => next.IsLead
  | .text _ next => next.IsLead
  | .blob _ _ _ => False
  | .element _ _ _ _ => False

namespace KeyedDom

def blobName : String := "html-blob"

def writeBlob (t : KeyedDom) (node : NodeId) (markup : String) : Except Fault KeyedDom :=
  if (t.document.record? node).bind NodeRecord.blob = some markup then .ok t
  else (t.setInnerMarkup node markup).map fun t =>
    t.setDocument (t.document.updateRecord node fun r => { r with blob := some markup })

def skipRest (t : KeyedDom) : KeyedDom := t.skipTo fun _ count => count

end KeyedDom

inductive Plan.Runs : Plan → KeyedDom → KeyedDom → Prop
  | done {t : KeyedDom} : Runs .done t t
  | assign {assignment : Assignment} {next : Plan} {t t₁ t' : KeyedDom} :
      t.changeCurrent (Element.assign assignment) = .ok t₁ → Runs next t₁ t' →
      Runs (.assign assignment next) t t'
  | text {value : String} {next : Plan} {node : Option NodeId} {t t₁ t' : KeyedDom} :
      t.writeText value = .ok (node, t₁) → Runs next t₁ t' → Runs (.text value next) t t'
  | blob {key markup : String} {next : Plan} {node : NodeId} {closed : Option NodeId}
      {t t₁ t₂ t₃ t' : KeyedDom} :
      t.openElement KeyedDom.blobName key = .ok (some node, t₁) →
      t₁.writeBlob node markup = .ok t₂ → t₂.skipRest.closeElement = .ok (closed, t₃) →
      Runs next t₃ t' → Runs (.blob key markup next) t t'
  | element {name key : String} {inner next : Plan} {node closed : Option NodeId}
      {t t₁ t₂ t₃ t' : KeyedDom} :
      t.openElement name key = .ok (node, t₁) → Runs inner t₁ t₂ →
      t₂.closeElement = .ok (closed, t₃) → Runs next t₃ t' →
      Runs (.element name key inner next) t t'

/-- One plan for each open element, the innermost first; each but the last ends with a closing. -/
inductive Plan.RunAll : List Plan → KeyedDom → KeyedDom → Prop
  | last {plan : Plan} {t t' : KeyedDom} : Runs plan t t' → RunAll [plan] t t'
  | closing {plan : Plan} {rest : List Plan} {closed : Option NodeId} {t t₁ t₂ t' : KeyedDom} :
      Runs plan t t₁ → t₁.closeElement = .ok (closed, t₂) → RunAll rest t₂ t' →
      RunAll (plan :: rest) t t'

structure Keyring where
  keys : Key.Stack
  saved : List String

structure Stage where
  target : KeyedDom
  keyring : Keyring

def Stage.state (st : Stage) (logger : Option LoggerId) (queue : List ComponentId) (g : Registry)
    (log : Array Event) : RenderState KeyedDom :=
  ⟨⟨⟨st.target, st.keyring.keys, logger, queue⟩, []⟩, ⟨g, st.keyring.saved, log⟩⟩

/-- A component call that returned, and the index it was told with. -/
def Event.call? : Event → Option (ComponentSpec × Option Nat)
  | .answer (.component spec) (.component report) => some (spec, report.map ComponentReport.index)
  | _ => none

def calls (log : Array Event) : List (ComponentSpec × Option Nat) :=
  log.toList.filterMap Event.call?

theorem calls_push_of_none {event : Event} (h : event.call? = none) (log : Array Event) :
    calls (log.push event) = calls log := by
  simp [calls, List.filterMap_append, h]

def Brings {α : Type} (m : RenderM KeyedDom α) (st : Stage) (a : α) (st' : Stage) : Prop :=
  ∀ ctx logger queue g log, ∃ log', calls log' = calls log ∧
    m ctx (st.state logger queue g log) = .done a (st'.state logger queue g log')

namespace Brings

open RenderM

variable {α β : Type} {t t₁ t₂ t₃ t' : KeyedDom} {k : Keyring} {st st' st'' : Stage}

theorem pure (a : α) : Brings (Pure.pure a) st a st := fun _ _ _ _ log => ⟨log, rfl, rfl⟩

theorem bind {m : RenderM KeyedDom α} {next : α → RenderM KeyedDom β} {a : α} {b : β}
    (hm : Brings m st a st') (hnext : Brings (next a) st' b st'') :
    Brings (m >>= next) st b st'' := by
  intro ctx logger queue g log
  obtain ⟨log₁, hcalls, h₁⟩ := hm ctx logger queue g log
  obtain ⟨log₂, hcalls', h₂⟩ := hnext ctx logger queue g log₁
  exact ⟨log₂, hcalls'.trans hcalls, by rw [bind_run, h₁]; exact h₂⟩

theorem answer {question : Question} (hq : ∀ spec, question ≠ .component spec)
    (a : Option Answer) : Brings (RenderM.answer question a) st () st := by
  cases a with
  | none => exact pure ()
  | some a =>
    have hnone : (Event.answer question a).call? = none := by
      cases question with
      | component spec => exact absurd rfl (hq spec)
      | _ => rfl
    exact fun _ _ _ _ log => ⟨_, calls_push_of_none hnone log, rfl⟩

theorem callTarget (call : TargetCall) {node : Option NodeId}
    (h : KeyedDom.apply call t = .ok (node, t')) :
    Brings (RenderM.callTarget call) ⟨t, k⟩ node ⟨t', k⟩ := by
  intro ctx logger queue g log
  have happly : RenderTarget.apply call t = .ok (node, t') := h
  refine ⟨if ctx.watched then log.push (.target call) else log, ?_, ?_⟩
  · split
    · exact calls_push_of_none rfl log
    · rfl
  · simp only [RenderM.callTarget, Stage.state, happly]
    rfl

theorem emit? (call : TargetCall) {node : Option NodeId}
    (h : KeyedDom.apply call t = .ok (node, t')) :
    Brings (RenderM.emit? call) ⟨t, k⟩ node ⟨t', k⟩ := fun ctx logger queue g log => by
  rw [emit?_run (show (Stage.state ⟨t, k⟩ logger queue g log).renderer.layers.length = 0 from rfl)]
  exact callTarget call h ctx logger queue g log

theorem emit (call : TargetCall) {node : Option NodeId}
    (h : KeyedDom.apply call t = .ok (node, t')) :
    Brings (RenderM.emit call) ⟨t, k⟩ () ⟨t', k⟩ := bind (emit? call h) (pure ())

theorem openElement {name key : String} {node : Option NodeId}
    (h : t.openElement name (k.keys.newKey (.text key)) = .ok (node, t')) :
    Brings (RenderM.openElement name key) ⟨t, k⟩ node ⟨t', k⟩ := fun ctx logger queue g log => by
  rw [openElement_run
    (show (Stage.state ⟨t, k⟩ logger queue g log).renderer.layers.length = 0 from rfl)]
  exact callTarget (.openElement name _) h ctx logger queue g log

theorem writeBlob {node : NodeId} {markup : String} (h : t.writeBlob node markup = .ok t') :
    Brings (RenderM.writeBlob node markup) ⟨t, k⟩ () ⟨t', k⟩ := by
  have hdocument : Brings RenderM.targetDocument ⟨t, k⟩ t.document ⟨t, k⟩ :=
    fun _ _ _ _ log => ⟨log, rfl, rfl⟩
  have hrecord : ∀ t : KeyedDom, ∀ change,
      Brings (RenderM.changeRecord node change) ⟨t, k⟩ ()
        ⟨t.setDocument (t.document.updateRecord node change), k⟩ :=
    fun _ _ _ _ _ _ log => ⟨log, rfl, rfl⟩
  refine bind hdocument ?_
  unfold KeyedDom.writeBlob at h
  split at h
  · next hwritten =>
    cases h
    rw [if_neg (not_not.2 hwritten)]
    exact pure ()
  · next hwritten =>
    rw [if_pos hwritten]
    cases hwrite : t.setInnerMarkup node markup with
    | error f => simp [hwrite, Except.map] at h
    | ok t₁ =>
      simp only [hwrite, Except.map, Except.ok.injEq] at h
      rw [← h]
      have hcall : KeyedDom.apply (.setInnerMarkup node markup) t = .ok (none, t₁) := by
        simp only [KeyedDom.apply, hwrite, Except.map]
      exact bind (emit _ hcall) (hrecord t₁ _)

end Brings

def Adds {α : Type} (m : RenderM KeyedDom α) (k : Keyring) (add : Plan → Plan) (k' : Keyring) :
    Prop :=
  ∀ plan t u, (add plan).Runs t u → ∃ a t', Brings m ⟨t, k⟩ a ⟨t', k'⟩ ∧ plan.Runs t' u

def Leading (add : Plan → Plan) : Prop := ∀ plan : Plan, plan.IsLead → (add plan).IsLead

theorem Leading.comp {add add' : Plan → Plan} (h : Leading add) (h' : Leading add') :
    Leading (add ∘ add') := fun plan hplan => h _ (h' plan hplan)

theorem Leading.id : Leading id := fun _ hplan => hplan

namespace Adds

open RenderM

variable {α β : Type} {k k' k'' : Keyring}

theorem of_brings {m : RenderM KeyedDom α} (a : α) (h : ∀ t, Brings m ⟨t, k⟩ a ⟨t, k'⟩) :
    Adds m k id k' := fun _ t _ hplan => ⟨a, t, h t, hplan⟩

theorem pure (a : α) : Adds (Pure.pure a) k id k := of_brings a fun _ => .pure a

theorem bind {m : RenderM KeyedDom α} {next : α → RenderM KeyedDom β} {add add' : Plan → Plan}
    (hm : Adds m k add k') (hnext : ∀ a, Adds (next a) k' add' k'') :
    Adds (m >>= next) k (add ∘ add') k'' := by
  intro plan t u h
  obtain ⟨a, t₁, hbrings, hrest⟩ := hm _ t u h
  obtain ⟨b, t₂, hbrings', hplan⟩ := hnext a _ t₁ u hrest
  exact ⟨b, t₂, hbrings.bind hbrings', hplan⟩

theorem text (value : String) : Adds (RenderM.text value) k (.text value) k := by
  intro plan t u h
  cases h with
  | text hwrite hplan => exact ⟨_, _, .emit? (.text value) hwrite, hplan⟩

theorem assign {call : TargetCall} {assignment : Assignment}
    (hcall : ∀ t, KeyedDom.apply call t =
      (t.changeCurrent (Element.assign assignment)).map (none, ·)) :
    Adds (RenderM.emit call) k (.assign assignment) k := by
  intro plan t u h
  cases h with
  | @assign _ _ _ t₁ _ hassign hplan =>
    have happly : KeyedDom.apply call t = .ok (none, t₁) := by
      rw [hcall, hassign]
      rfl
    exact ⟨_, _, .emit _ happly, hplan⟩

theorem setAttribute (name value : String) :
    ∃ add, Adds (RenderM.setAttribute name value) k add k ∧ Leading add := by
  have hleading : ∀ assignment, Leading (.assign assignment) := fun _ _ hplan => hplan
  have hattribute : Adds (RenderM.emit (.setAttribute name value)) k
      (.assign (.toAttribute name value)) k := assign fun t => by
    change (t.changeCurrent (Element.setAttribute name value) >>= Pure.pure).map (none, ·) = _
    rw [bind_pure]
    rfl
  have hproperty : ∀ property : PropertyValue, Adds (RenderM.emit (.setProperty name property)) k
      (.assign (.toProperty name property.toText)) k := fun _ => assign fun _ => rfl
  rw [RenderM.setAttribute]
  split
  · exact ⟨_, hattribute.bind fun _ => hproperty _, (hleading _).comp (hleading _)⟩
  · split
    · exact ⟨_, hattribute.bind fun _ => hproperty _, (hleading _).comp (hleading _)⟩
    · exact ⟨_, hattribute.bind fun _ => pure (), hleading _⟩

theorem setAttributes {attributes : List (String × String)} {plan : Plan} {t u : KeyedDom}
    (h : (attributes.foldr (fun a plan => .assign (.toAttribute a.1 a.2) plan) plan).Runs t u) :
    ∃ t', t.setAttributes attributes = .ok t' ∧ plan.Runs t' u := by
  induction attributes generalizing t with
  | nil => exact ⟨t, rfl, h⟩
  | cons a rest ih =>
    cases h with
    | @assign _ _ _ t₁ _ hfirst hrest =>
      obtain ⟨t', ht', hplan⟩ := ih hrest
      have hset : t.changeCurrent (Element.setAttribute a.1 a.2) = .ok t₁ := hfirst
      refine ⟨t', ?_, hplan⟩
      simp only [KeyedDom.setAttributes, List.foldlM_cons, hset, Bind.bind, Except.bind]
      exact ht'

theorem applyStatics (attributes : List (String × String)) :
    ∃ add, Adds (RenderM.emit (.applyStatics attributes)) k add k ∧ Leading add := by
  refine ⟨fun plan => attributes.foldr (fun a plan => .assign (.toAttribute a.1 a.2) plan) plan,
    fun plan t u h => ?_, fun plan hplan => ?_⟩
  · obtain ⟨t', ht', hplan⟩ := setAttributes h
    have happly : KeyedDom.apply (.applyStatics attributes) t = .ok (none, t') := by
      simp only [KeyedDom.apply, ht', Except.map]
    exact ⟨(), t', .emit _ happly, hplan⟩
  · induction attributes with
    | nil => exact hplan
    | cons a rest ih => exact ih

theorem printContent (value : Printable) :
    Adds (RenderM.printContent value) k (.text (printedText value)) k :=
  (text (printedText value)).bind fun _ => pure ()

theorem blob (markup : String) (hmarkup : needsMarkup markup = true) :
    Adds (RenderM.print (.sanitizedHtml markup)) k (.blob (k.keys.newKey (.text "")) markup) k := by
  intro plan t u h
  cases h with
  | @blob _ _ _ node _ _ _ t₂ _ _ hopen hwrite hclose hplan =>
    rw [RenderM.print, if_pos hmarkup]
    exact ⟨(), _, .bind (.openElement hopen) (.bind (.writeBlob hwrite)
      (.bind (.emit .skip rfl) (.emit .closeElement hclose))), hplan⟩

theorem print (value : Printable) : ∃ add, Adds (RenderM.print value) k add k := by
  cases value with
  | sanitizedHtml markup =>
    by_cases hmarkup : needsMarkup markup = true
    · exact ⟨_, blob markup hmarkup⟩
    · rw [RenderM.print, if_neg hmarkup]
      exact ⟨_, printContent _⟩
  | null => exact ⟨_, printContent .null⟩
  | bool value => exact ⟨_, printContent (.bool value)⟩
  | number value => exact ⟨_, printContent (.number value)⟩
  | text value => exact ⟨_, printContent (.text value)⟩

end Adds

def Keyring.after (k : Keyring) : Instruction → Keyring
  | .pushKey fragment => ⟨k.keys.pushCall fragment, k.keys.current :: k.saved⟩
  | .popKey (some previous) => { k with keys := k.keys.popCall previous }
  | .popKey none => ⟨k.keys.popCall (k.saved.headD ""), k.saved.tail⟩
  | .pushManualKey fragment => { k with keys := k.keys.pushManual fragment }
  | .popManualKey => { k with keys := k.keys.popManual }
  | _ => k

theorem Instruction.IsPlain.exists_adds {i : Instruction} (hi : i.IsPlain) (k : Keyring) :
    ∃ add, Adds (i.perform (τ := KeyedDom)) k add (k.after i) ∧ Leading add := by
  have still : ∀ {k' : Keyring} (a : Option Answer),
      (∀ t, Brings (i.perform (τ := KeyedDom)) ⟨t, k⟩ a ⟨t, k'⟩) →
      ∃ add, Adds (i.perform (τ := KeyedDom)) k add k' ∧ Leading add := fun a h =>
    ⟨id, .of_brings a h, .id⟩
  cases i with
  | text value => exact ⟨_, (Adds.text value).bind fun _ => .pure _, fun _ hplan => hplan⟩
  | setAttribute name value =>
    obtain ⟨add, hadd, hlead⟩ := Adds.setAttribute name value
    exact ⟨_, hadd.bind fun _ => .pure none, hlead⟩
  | applyAttributes => exact still none fun t => .bind (.emit .applyAttributes rfl) (.pure none)
  | applyStatics attributes =>
    obtain ⟨add, hadd, hlead⟩ := Adds.applyStatics attributes
    exact ⟨_, hadd.bind fun _ => .pure none, hlead⟩
  | pushKey fragment =>
    exact still (some (.text k.keys.current)) fun _ _ _ _ _ log => ⟨log, rfl, rfl⟩
  | popKey previous =>
    cases previous <;> exact still none fun _ _ _ _ _ log => ⟨log, rfl, rfl⟩
  | newKey fragment =>
    exact still (some (.text (k.keys.newKey fragment))) fun _ _ _ _ _ log => ⟨log, rfl, rfl⟩
  | currentKey => exact still (some (.text k.keys.current)) fun _ _ _ _ _ log => ⟨log, rfl, rfl⟩
  | pushManualKey fragment => exact still none fun _ _ _ _ _ log => ⟨log, rfl, rfl⟩
  | popManualKey => exact still none fun _ _ _ _ _ log => ⟨log, rfl, rfl⟩
  | _ => exact hi.elim

/-- A script of plain steps, prints and callbacks, from one number of open elements to another. -/
inductive Script.Spans : Nat → Nat → Script → Prop
  | done {depth : Nat} : Spans depth depth .done
  | opening {depth final : Nat} {next : Script} (name key : String) :
      Spans (depth + 1) final next → Spans depth final (.step (.openElement name key) next)
  | closing {depth final : Nat} {next : Script} :
      Spans depth final next → Spans (depth + 1) final (.step .closeElement next)
  | plain {depth final : Nat} {next : Script} {i : Instruction} : i.IsPlain →
      Spans depth final next → Spans depth final (.step i next)
  | print {depth final : Nat} {next : Script} (value : Printable) :
      Spans depth final next → Spans depth final (.step (.print value) next)
  | callback {depth middle final : Nat} {body next : Script} :
      Spans depth middle body → Spans middle final next →
      Spans depth final (.block .print body next)

theorem Plan.RunAll.exists_run {plan : Plan} {rest : List Plan} {t u : KeyedDom}
    (h : RunAll (plan :: rest) t u) :
    ∃ t₁, plan.Runs t t₁ ∧ ∀ plan' t', plan'.Runs t' t₁ → RunAll (plan' :: rest) t' u := by
  cases h with
  | last hrun => exact ⟨_, hrun, fun _ _ hrun' => .last hrun'⟩
  | closing hrun hclose hrest => exact ⟨_, hrun, fun _ _ hrun' => .closing hrun' hclose hrest⟩

namespace Script.Spans

variable {depth final : Nat} {script next : Script} {k : Keyring}

/-- A script that is a plan for each element open before it, whatever follows it. -/
def PlansAs (script : Script) (depth final : Nat) (k k' : Keyring) : Prop :=
  ∀ after : List Plan, after.length = final + 1 → ∃ plans : List Plan, plans.length = depth + 1 ∧
    ∀ t u, Plan.RunAll plans t u →
      ∃ t', Brings (script.run KeyedDom) ⟨t, k⟩ () ⟨t', k'⟩ ∧ Plan.RunAll after t' u

theorem plansAs_step {i : Instruction} {k' : Keyring} {add : Plan → Plan}
    (hi : Adds (i.perform (τ := KeyedDom)) k add k')
    (h : ∃ k'', PlansAs next depth final k' k'') :
    ∃ k'', PlansAs (.step i next) depth final k k'' := by
  obtain ⟨k'', hnext⟩ := h
  refine ⟨k'', fun after hafter => ?_⟩
  obtain ⟨plans, hlength, hruns⟩ := hnext after hafter
  cases plans with
  | nil => cases hlength
  | cons plan rest =>
    refine ⟨add plan :: rest, hlength, fun t u h => ?_⟩
    obtain ⟨t₁, hrun, hthen⟩ := h.exists_run
    obtain ⟨a, t', hbrings, hplan⟩ := hi plan t t₁ hrun
    obtain ⟨t'', hbrings', hafter⟩ := hruns t' u (hthen plan t' hplan)
    exact ⟨t'', .bind hbrings (.bind (.answer (by simp) a) hbrings'), hafter⟩

theorem exists_plansAs (h : script.Spans depth final) (k : Keyring) :
    ∃ k', PlansAs script depth final k k' := by
  induction h generalizing k with
  | done => exact ⟨k, fun after hafter => ⟨after, hafter, fun t _ h => ⟨t, .pure (), h⟩⟩⟩
  -- The plan of the element is what the rest of the script does until it is closed, and the plan
  -- around it goes on from there.
  | @opening depth final next name key _ ih =>
    obtain ⟨k', hnext⟩ := ih k
    refine ⟨k', fun after hafter => ?_⟩
    obtain ⟨plans, hlength, hruns⟩ := hnext after hafter
    match plans, hlength with
    | inner :: plan :: rest, hlength =>
      refine ⟨.element name (k.keys.newKey (.text key)) inner plan :: rest, by simpa using hlength,
        fun t u h => ?_⟩
      obtain ⟨t', hrun, hthen⟩ := h.exists_run
      cases hrun with
      | element hopen hinner hclose hplan =>
        obtain ⟨t'', hbrings, hafter⟩ := hruns _ u (.closing hinner hclose (hthen _ _ hplan))
        have hperform : Brings (Instruction.perform (.openElement name key)) ⟨t, k⟩ _ ⟨_, k⟩ :=
          .bind (.openElement hopen) (.pure _)
        exact ⟨t'', .bind hperform (.bind (.answer (by simp) _) hbrings), hafter⟩
  | @closing depth final next _ ih =>
    obtain ⟨k', hnext⟩ := ih k
    refine ⟨k', fun after hafter => ?_⟩
    obtain ⟨plans, hlength, hruns⟩ := hnext after hafter
    refine ⟨.done :: plans, by simp [hlength], fun t u h => ?_⟩
    cases h with
    | last => cases hlength
    | closing hdone hclose hrest =>
      cases hdone
      obtain ⟨t'', hbrings, hafter⟩ := hruns _ u hrest
      have hperform : Brings (Instruction.perform .closeElement) ⟨_, k⟩ _ ⟨_, k⟩ :=
        .bind (.emit? .closeElement hclose) (.pure _)
      exact ⟨t'', .bind hperform (.bind (.answer (by simp) _) hbrings), hafter⟩
  | plain hi _ ih =>
    obtain ⟨add, hadd, -⟩ := hi.exists_adds k
    exact plansAs_step hadd (ih _)
  | print value _ ih =>
    obtain ⟨add, hadd⟩ := Adds.print (k := k) value
    exact plansAs_step (hadd.bind fun _ => .pure none) (ih k)
  | callback _ _ ihbody ih =>
    obtain ⟨k₁, hbody⟩ := ihbody k
    obtain ⟨k₂, hnext⟩ := ih k₁
    refine ⟨k₂, fun after hafter => ?_⟩
    obtain ⟨plans, hlength, hruns⟩ := hnext after hafter
    obtain ⟨plans', hlength', hruns'⟩ := hbody plans hlength
    refine ⟨plans', hlength', fun t u h => ?_⟩
    obtain ⟨t₁, hbrings, h₁⟩ := hruns' t u h
    obtain ⟨t₂, hbrings', h₂⟩ := hruns t₁ u h₁
    have hperform : Brings (Block.perform .print fun _ _ => Script.run _ _) ⟨t, k⟩ none ⟨t₁, k₁⟩ :=
      .bind hbrings (.pure none)
    exact ⟨t₂, .bind hperform (.bind (.answer (by simp) none) hbrings'), h₂⟩

/-- A balanced script has a plan: whatever target the plan can be followed on, the script does. -/
theorem exists_plan (h : script.Spans 0 0) (k : Keyring) : ∃ plan : Plan, ∃ k', ∀ t t',
    plan.Runs t t' → Brings (script.run KeyedDom) ⟨t, k⟩ () ⟨t', k'⟩ := by
  obtain ⟨k', hplans⟩ := h.exists_plansAs k
  obtain ⟨plans, hlength, hruns⟩ := hplans [.done] rfl
  obtain ⟨plan, rfl⟩ := List.length_eq_one_iff.1 hlength
  refine ⟨plan, k', fun t t' h => ?_⟩
  obtain ⟨t₁, hbrings, hafter⟩ := hruns t t' (.last h)
  cases hafter with
  | last hdone =>
    cases hdone
    exact hbrings
  | closing _ _ hrest => cases hrest

end Script.Spans

end KeyedRender
