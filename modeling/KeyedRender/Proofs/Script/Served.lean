import KeyedRender.Proofs.Document.Chronicle
import KeyedRender.Proofs.Script.Traces
import KeyedRender.Proofs.Target.Served

/-!
# Opening elements by a server's key

On a bare target an element is opened by its server's key, then looked at, then skipped if it has
content. What it comes to is one arrival at the node that was opened.
-/
namespace KeyedRender

def Outcome.ended? {σ α : Type} : Outcome σ α → Option (Except RenderError α × σ)
  | .done a s => some (.ok a, s)
  | .failed e s => some (.error e, s)
  | .broken _ => none

namespace RenderM

variable {τ : Type} [RenderTarget τ] {ctx : Context}

/-- A server-rendered element before it is looked at. -/
def openServed (name key : String) : RenderM τ (Option NodeId) := do
  let opened ← callTarget (.openElement name key)
  stampKey key
  return opened

def verifyServed (parameters : Option Payload) (node : NodeId) : RenderM τ Unit :=
  match parameters.filter Payload.isSupplied with
  | some supplied => verifySkipParameters node supplied
  | none => pure ()

def skipServed : RenderM τ Bool := do
  emit .skip
  emit .closeElement
  return false

def serve (parameters : Option Payload) (node : NodeId) : RenderM τ Bool := do
  if ← readTarget (RenderTarget.hasContent · node) then
    verifyServed parameters node
    skipServed
  else return true

theorem openServerElement_run (ctx : Context) {s : RenderState τ} (hs : s.renderer.layers = [])
    (name key : String) (parameters : Option Payload) :
    openServerElement name key parameters ctx s = (do
      match ← openServed name key with
      | none => return true
      | some node => serve parameters node) ctx s := by
  have hkind : s.renderer.kind = .default := by rw [Renderer.kind, hs]
  simp only [openServerElement, openServed, bind_run, renderer, hkind, pure_run]
  cases callTarget (.openElement name key) ctx s with
  | failed e t => rfl
  | broken f => rfl
  | done opened t =>
    dsimp only
    cases stampKey key ctx t with
    | failed e u => rfl
    | broken f => rfl
    | done _ u =>
      cases opened with
      | none => rfl
      | some node =>
        simp only [serve, verifyServed, skipServed]
        cases parameters.filter Payload.isSupplied <;> rfl

theorem callTarget_done {s t : RenderState τ} {call : TargetCall} {node : Option NodeId}
    (h : callTarget call ctx s = .done node t) :
    RenderTarget.apply call s.renderer.pass.target = .ok (node, t.renderer.pass.target) ∧
      t.renderer.layers = s.renderer.layers := by
  refine ⟨?_, layers_of_callTarget h⟩
  unfold callTarget at h
  split at h
  · cases h
  · next happly =>
    cases h
    exact happly

end RenderM

/-- The target and the log may have changed, and nothing else. -/
structure RenderState.Redraws {τ : Type} (s u : RenderState τ) : Prop where
  renderer : u.renderer = s.renderer.setTarget u.renderer.pass.target
  shared : u.shared = { s.shared with log := u.shared.log }

namespace RenderState.Redraws

variable {τ : Type} {s u v : RenderState τ}

theorem refl (s : RenderState τ) : s.Redraws s := ⟨rfl, rfl⟩

theorem trans (h : s.Redraws u) (h' : u.Redraws v) : s.Redraws v := by
  refine ⟨?_, ?_⟩
  · rw [h'.renderer, h.renderer]
    rfl
  · rw [h'.shared, h.shared]

theorem layers (h : s.Redraws u) : u.renderer.layers = s.renderer.layers := by
  rw [h.renderer]
  rfl

theorem callTarget [RenderTarget τ] {ctx : Context} {call : TargetCall} {answer : Option NodeId}
    (h : RenderM.callTarget call ctx s = .done answer u) : s.Redraws u := by
  unfold RenderM.callTarget at h
  split at h
  · cases h
  · cases h
    exact ⟨rfl, rfl⟩

end RenderState.Redraws

structure RenderState.Served (s : RenderState KeyedDom) (node : NodeId) : Prop where
  layers : s.renderer.layers = []
  element : (s.renderer.pass.target.document.element? node).isSome
  frames : ∃ g below, s.renderer.pass.target.frames = ⟨node, 0⟩ :: g :: below

namespace RenderM

variable {ctx : Context} {s t : RenderState KeyedDom}

theorem callTarget_keeps {call : TargetCall} {answer : Option NodeId}
    (h : callTarget call ctx s = .done answer t) :
    s.renderer.pass.target.document.Keeps NodeRecord.skipParameters
      t.renderer.pass.target.document := by
  have happly : KeyedDom.apply call s.renderer.pass.target = _ := (callTarget_done h).1
  have hkeeps : KeepsRecords NodeRecord.skipParameters _ _ _ :=
    KeyedDom.keepsRecords_apply call s.renderer.pass.target
  rw [happly] at hkeeps
  exact hkeeps

theorem setAttribute_serverKey (key : String) : setAttribute serverKeyAttribute key ctx s =
    emit (.setAttribute serverKeyAttribute key) ctx s := by
  simp only [setAttribute, bind_run]
  cases emit (.setAttribute serverKeyAttribute key) ctx s <;> rfl

theorem stampKey_run (ctx : Context) (s : RenderState KeyedDom) (key : String) :
    stampKey key ctx s = if ctx.stampsKeys then emit (.setAttribute serverKeyAttribute key) ctx s
      else .done () s := by
  simp only [stampKey, bind_run, context]
  split
  · exact setAttribute_serverKey key
  · rfl

theorem stampKey_ends (hs : s.renderer.layers = []) {key : String}
    (h : (stampKey key ctx s).EndsIn t) :
    stampKey key ctx s = .done () t ∧ t.renderer.layers = [] ∧
    s.renderer.pass.target.document.Keeps NodeRecord.skipParameters
      t.renderer.pass.target.document ∧
    t.renderer.pass.target.frames = s.renderer.pass.target.frames ∧
    ∀ node, (t.renderer.pass.target.document.element? node).isSome =
      (s.renderer.pass.target.document.element? node).isSome := by
  rw [stampKey_run] at h ⊢
  split at h <;> rename_i hstamps
  · rw [if_pos hstamps]
    obtain ⟨hemit, answer, hcall⟩ := emit_of_endsIn hs h
    obtain ⟨hassign, hlayers⟩ := callTarget_done hcall
    exact ⟨hemit, hlayers.trans hs, callTarget_keeps hcall, KeyedDom.setAttribute_ok hassign⟩
  · rw [if_neg hstamps]
    obtain rfl := Outcome.EndsIn.done_iff.1 h
    exact ⟨rfl, hs, .refl _, rfl, fun _ => rfl⟩

theorem openServed_ends (hs : s.renderer.layers = []) {name key : String}
    (h : (openServed name key ctx s).EndsIn t) : ∃ opened,
    openServed name key ctx s = .done opened t ∧
    s.renderer.pass.target.document.Keeps NodeRecord.skipParameters
      t.renderer.pass.target.document ∧ ∀ node, opened = some node → t.Served node := by
  rcases Outcome.EndsIn.bind_iff.1 h with ⟨e, hfailed⟩ | ⟨opened, u, hopen, h⟩
  · obtain ⟨answer, hdone⟩ := callTarget_of_endsIn (.inr ⟨e, hfailed⟩)
    rw [hdone] at hfailed
    cases hfailed
  obtain ⟨happly, hlayers⟩ := callTarget_done hopen
  have hstamp : (stampKey key ctx u).EndsIn t := by
    rcases Outcome.EndsIn.bind_iff.1 h with ⟨e, hfailed⟩ | ⟨_, v, hdone, hpure⟩
    · exact .inr ⟨e, hfailed⟩
    · obtain rfl := Outcome.EndsIn.done_iff.1 hpure
      exact .inl ⟨_, hdone⟩
  obtain ⟨hrun, ht, hkeeps, hframes', hsame⟩ := stampKey_ends (hlayers.trans hs) hstamp
  refine ⟨opened, ?_, (callTarget_keeps hopen).trans hkeeps, ?_⟩
  · simp only [openServed, bind_run, hopen, hrun, pure_run]
  rintro node rfl
  obtain ⟨helement, g, below, hframes⟩ := KeyedDom.openElement_some happly
  exact ⟨ht, (hsame node).trans helement, g, below, hframes'.trans hframes⟩

end RenderM

theorem RenderState.Served.isLive {s : RenderState KeyedDom} {node : NodeId} (h : s.Served node) :
    s.renderer.pass.target.document.isLive node = true := by
  obtain ⟨e, he⟩ := Option.isSome_iff_exists.1 h.element
  exact Document.isLive_of_element? he

namespace RenderM

variable {ctx : Context} {s t : RenderState KeyedDom} {node : NodeId}

theorem emit_run (ctx : Context) (call : TargetCall) (hs : s.renderer.layers = [])
    {answer : Option NodeId} {target : KeyedDom}
    (h : RenderTarget.apply call s.renderer.pass.target = .ok (answer, target)) :
    ∃ u, emit call ctx s = .done () u ∧ s.Redraws u ∧ u.renderer.pass.target = target := by
  obtain ⟨log, hcall⟩ := callTarget_run ctx h
  refine ⟨⟨s.renderer.setTarget target, { s.shared with log := log }⟩, ?_, ⟨rfl, rfl⟩, rfl⟩
  simp only [emit, bind_run, emit?_of_layers hs, hcall, pure_run]

theorem closeSkipped_run (ctx : Context) (hs : s.renderer.layers = []) {answer : Option NodeId}
    {target : KeyedDom}
    (h : (s.renderer.pass.target.skipTo fun _ count => count).closeElement =
      .ok (answer, target)) :
    ∃ u, (∀ told : Bool, (do
        emit .skip
        emit .closeElement
        return told) ctx s = .done told u) ∧
      s.Redraws u ∧ u.renderer.pass.target = target := by
  obtain ⟨u, hskip, hdrawn, hu⟩ := emit_run ctx .skip hs rfl
  have happly : RenderTarget.apply .closeElement u.renderer.pass.target = _ := hu ▸ h
  obtain ⟨v, hclose, hdrawn', hv⟩ := emit_run ctx .closeElement (hdrawn.layers.trans hs) happly
  exact ⟨v, fun told => by simp only [bind_run, hskip, hclose, pure_run], hdrawn.trans hdrawn', hv⟩

theorem skipServed_run (ctx : Context) (hs : s.Served node) : ∃ u,
    skipServed ctx s = .done false u ∧
    u.renderer.pass.target.document.isLive node = true ∧
    s.renderer.pass.target.document.Keeps NodeRecord.skipParameters
      u.renderer.pass.target.document := by
  obtain ⟨g, below, hframes⟩ := hs.frames
  obtain ⟨e, he⟩ := Option.isSome_iff_exists.1 hs.element
  obtain ⟨u, hclose, -, hu⟩ :=
    closeSkipped_run ctx hs.layers (KeyedDom.closeElement_skipTo hframes he)
  refine ⟨u, hclose false, ?_, ?_⟩
  · rw [hu]
    exact (Document.isLive_updateElement ..).trans (Document.isLive_of_element? he)
  · rw [hu]
    exact .setChildren _ _ _

theorem verifySkipParameters_cases (ctx : Context) (parameters : Payload) {e : Element}
    (he : s.renderer.pass.target.document.element? node = some e) :
    e.record.skipParameters = none ∧
      verifySkipParameters node parameters ctx s = .done () { s with
        renderer := s.renderer.setTarget (s.renderer.pass.target.setDocument
          (s.renderer.pass.target.document.updateRecord node fun r =>
            { r with skipParameters := some parameters.indentedText })) } ∨
    e.record.skipParameters = some parameters.indentedText ∧
      verifySkipParameters node parameters ctx s = .done () s ∨
    ∃ old, e.record.skipParameters = some old ∧ parameters.indentedText ≠ old ∧
      ((∃ element, verifySkipParameters node parameters ctx s =
        .failed (.skipParametersChanged old parameters.indentedText element) s) ∨
      ∃ f, verifySkipParameters node parameters ctx s = .broken f) := by
  have hrecord : (RenderTarget.document s.renderer.pass.target).record? node = some e.record := by
    change (s.renderer.pass.target.document.element? node).map Element.record = _
    rw [he]
    rfl
  simp only [verifySkipParameters, targetDocument, bind_run, renderer, pure_run, hrecord]
  cases hold : e.record.skipParameters with
  | none => exact .inl ⟨rfl, rfl⟩
  | some old =>
    dsimp only
    by_cases hsame : parameters.indentedText = old
    · exact .inr (.inl ⟨congrArg some hsame.symm, by rw [if_neg (not_not.2 hsame.symm)]; rfl⟩)
    · refine .inr (.inr ⟨old, rfl, hsame, ?_⟩)
      rw [if_pos (Ne.symm hsame)]
      simp only [readTarget, bind_run, renderer]
      cases RenderTarget.describe s.renderer.pass.target node with
      | ok element => exact .inl ⟨element, rfl⟩
      | error f => exact .inr ⟨f, rfl⟩

theorem verifySkipParameters_ends {parameters : Payload} (hs : s.Served node)
    (ht : (verifySkipParameters node parameters ctx s).EndsIn t) :
    match s.renderer.pass.target.document.skipParameters? node with
    | none => verifySkipParameters node parameters ctx s = .done () t ∧ t.Served node ∧
      t.renderer.pass.target.document = s.renderer.pass.target.document.updateRecord node
        fun r => { r with skipParameters := some parameters.indentedText }
    | some old =>
      if parameters.indentedText = old then
        verifySkipParameters node parameters ctx s = .done () s ∧ t = s
      else t = s ∧ ∃ element, verifySkipParameters node parameters ctx s =
        .failed (.skipParametersChanged old parameters.indentedText element) s := by
  obtain ⟨e, he⟩ := Option.isSome_iff_exists.1 hs.element
  have hskip : s.renderer.pass.target.document.skipParameters? node = e.record.skipParameters := by
    rw [Document.skipParameters?, Document.record?, he]
    rfl
  rw [hskip]
  obtain ⟨hnone, hrun⟩ | ⟨hsame, hrun⟩ | ⟨old, hold, hdiffer, hfail⟩ :=
    verifySkipParameters_cases ctx parameters he
  · rw [hrun] at ht ⊢
    obtain rfl := Outcome.EndsIn.done_iff.1 ht
    rw [hnone]
    refine ⟨rfl, ⟨hs.layers, ?_, hs.frames⟩, rfl⟩
    change ((s.renderer.pass.target.document.updateRecord node _).element? node).isSome
    rw [Document.updateRecord, Document.element?_updateElement, if_pos rfl, he]
    rfl
  · rw [hrun] at ht ⊢
    rw [hsame]
    dsimp only
    rw [if_pos rfl]
    exact ⟨rfl, (Outcome.EndsIn.done_iff.1 ht).symm⟩
  · rw [hold]
    simp only [if_neg hdiffer]
    obtain ⟨element, hrun⟩ | ⟨f, hrun⟩ := hfail
    · rw [hrun] at ht ⊢
      exact ⟨(Outcome.EndsIn.failed_iff.1 ht).symm, element, rfl⟩
    · rw [hrun] at ht
      exact absurd ht Outcome.EndsIn.not_broken

theorem verifyServed_ends {parameters : Option Payload} (hs : s.Served node)
    (ht : (verifyServed parameters node ctx s).EndsIn t) : ∃ result : Except RenderError Unit,
    (verifyServed parameters node ctx s).ended? = some (result, t) ∧
    (result = .ok () → t.Served node) ∧ s.renderer.pass.target.document.Chronicle
      [⟨node, true, (parameters.filter Payload.isSupplied).map Payload.indentedText,
        s.renderer.pass.target.document.skipParameters? node, result.map fun _ => false,
        t.renderer.pass.target.document.skipParameters? node⟩]
      t.renderer.pass.target.document := by
  have hlive := hs.isLive
  unfold verifyServed at ht ⊢
  -- Either nothing is supplied, or it is recorded, or it is compared with what was recorded.
  cases hsupplied : parameters.filter Payload.isSupplied with
  | none =>
    rw [hsupplied] at ht
    obtain rfl := Outcome.EndsIn.done_iff.1 ht
    exact ⟨.ok (), rfl, fun _ => hs, .unchanged hlive rfl rfl Option.or_none.symm rfl⟩
  | some supplied =>
    rw [hsupplied] at ht
    have hverify := verifySkipParameters_ends hs ht
    cases hold : s.renderer.pass.target.document.skipParameters? node with
    | none =>
      rw [hold] at hverify
      obtain ⟨hrun, hserved, hdocument⟩ := hverify
      have hrecord : ∀ id, t.renderer.pass.target.document.record? id = _ := fun id =>
        hdocument ▸ Document.record?_updateRecord ..
      refine ⟨.ok (), by simp only [hrun, Outcome.ended?], fun _ => hserved,
        .single ?_ ?_ hlive hold.symm rfl ?_ ?_ rfl⟩
      · rw [hdocument]
        exact Nat.le_of_eq (Document.size_updateElement ..).symm
      · intro id _ hid
        rw [hdocument] at hid
        rwa [Document.updateRecord, Document.isLive_updateElement] at hid
      · obtain ⟨e, he⟩ := Option.isSome_iff_exists.1 hs.element
        have hnow : s.renderer.pass.target.document.record? node = some e.record := by
          rw [Document.record?, he]
          rfl
        simp only [Document.skipParameters?, hrecord, if_true, hnow]
        rfl
      · intro id hne _
        simp [Document.skipParameters?, hrecord, hne]
    | some old =>
      rw [hold] at hverify
      dsimp only at hverify
      split at hverify
      · next heq =>
        obtain ⟨hrun, rfl⟩ := hverify
        exact ⟨.ok (), by simp only [hrun, Outcome.ended?], fun _ => hs,
          .unchanged hlive hold.symm rfl rfl (by simp [Arrival.Answers, heq, Except.map])⟩
      · next hne =>
        obtain ⟨rfl, element, hrun⟩ := hverify
        exact ⟨.error (.skipParametersChanged old supplied.indentedText element),
          by simp only [hrun, Outcome.ended?], (by simp),
          .unchanged hlive hold.symm rfl rfl (by simp [Arrival.Answers, hne, Except.map])⟩

theorem serve_ends {parameters : Option Payload} (hs : s.Served node)
    (ht : (serve parameters node ctx s).EndsIn t) : ∃ hasContent result,
    s.renderer.pass.target.hasContent node = .ok hasContent ∧
    (serve parameters node ctx s).ended? = some (result, t) ∧
    s.renderer.pass.target.document.Chronicle
      [⟨node, hasContent, (parameters.filter Payload.isSupplied).map Payload.indentedText,
        s.renderer.pass.target.document.skipParameters? node, result,
        t.renderer.pass.target.document.skipParameters? node⟩]
      t.renderer.pass.target.document := by
  simp only [serve, readTarget, bind_run, renderer] at ht ⊢
  cases hcontent : s.renderer.pass.target.hasContent node with
  | error f =>
    have hcontent' : RenderTarget.hasContent s.renderer.pass.target node = .error f := hcontent
    simp only [hcontent'] at ht
    exact absurd ht Outcome.EndsIn.not_broken
  | ok hasContent =>
    have hcontent' : RenderTarget.hasContent s.renderer.pass.target node = .ok hasContent :=
      hcontent
    simp only [hcontent', pure_run] at ht ⊢
    cases hasContent with
    | false =>
      obtain rfl := Outcome.EndsIn.done_iff.1 ht
      exact ⟨false, .ok true, rfl, rfl, .unchanged hs.isLive rfl rfl Option.or_none.symm rfl⟩
    | true =>
      rw [if_pos rfl] at ht ⊢
      rcases Outcome.EndsIn.bind_iff.1 ht with ⟨error, hfailed⟩ | ⟨_, u, hdone, hrest⟩
      · obtain ⟨result, hended, -, hchronicle⟩ := verifyServed_ends hs (.inr ⟨error, hfailed⟩)
        rw [hfailed] at hended
        cases hended
        exact ⟨true, .error error, rfl, by rw [bind_run, hfailed]; rfl, hchronicle⟩
      · obtain ⟨result, hended, hserved, hchronicle⟩ := verifyServed_ends hs (.inl ⟨(), hdone⟩)
        rw [hdone] at hended
        cases hended
        obtain ⟨w, hskip, hwlive, hkeeps⟩ := skipServed_run ctx (hserved rfl)
        rw [hskip] at hrest
        obtain rfl := Outcome.EndsIn.done_iff.1 hrest
        refine ⟨true, .ok false, rfl, by simp only [bind_run, hdone, hskip, Outcome.ended?], ?_⟩
        rw [Document.skipParameters?_of_keeps hkeeps hwlive]
        exact hchronicle.trans (.of_keeps hkeeps)

end RenderM

end KeyedRender
