import KeyedRender.Proofs.Script.Served
import KeyedRender.Proofs.Session.Reentry
import KeyedRender.Proofs.Target.Skipped

/-!
# Elements that are skipped

At every step of a pass, an element that is skipped as it is opened is passed by: nothing below it
changes, its siblings keep their order, and the pointer is behind it. What may change of the element
itself are the attribute for a server's key and the record of its parameters.
-/
namespace KeyedRender

open RenderM

def NodeRecord.offer (parameters : Option Payload) (r : NodeRecord) : NodeRecord :=
  let offered := (parameters.filter Payload.isSupplied).map Payload.indentedText
  { r with skipParameters := r.skipParameters.or offered }

theorem NodeRecord.offer_of_none {parameters : Option Payload}
    (h : parameters.filter Payload.isSupplied = none) (r : NodeRecord) :
    r.offer parameters = r := by
  simp [offer, h]

theorem NodeRecord.offer_of_some {r : NodeRecord} {old : String}
    (h : r.skipParameters = some old) (parameters : Option Payload) : r.offer parameters = r := by
  obtain ⟨skipParameters, slot, blob⟩ := r
  cases h
  rfl

def Element.stamped (stampsKeys : Bool) (key : String) (e : Element) : Element :=
  if stampsKeys then e.setAttribute serverKeyAttribute key else e

theorem Element.record_stamped (stampsKeys : Bool) (key : String) (e : Element) :
    (e.stamped stampsKeys key).record = e.record := by
  unfold stamped
  split <;> rfl

/-- An element that was opened by its server's key and skipped. -/
def Element.served (stampsKeys : Bool) (key : String) (parameters : Option Payload) (e : Element) :
    Element :=
  { e.stamped stampsKeys key with record := e.record.offer parameters }

namespace RenderM

variable {ctx : Context} {s u : RenderState KeyedDom} {node : NodeId}

theorem verifyServed_done {parameters : Option Payload} {e : Element}
    (he : s.renderer.pass.target.document.element? node = some e)
    (h : verifyServed parameters node ctx s = .done () u) :
    s.Redraws u ∧
      u.renderer.pass.target =
        { s.renderer.pass.target with document := u.renderer.pass.target.document } ∧
      s.renderer.pass.target.document.Retouches node
        (fun e => { e with record := e.record.offer parameters })
        u.renderer.pass.target.document := by
  unfold verifyServed at h
  cases hsupplied : parameters.filter Payload.isSupplied with
  | none =>
    rw [hsupplied] at h
    cases h
    exact ⟨.refl s, rfl, .of_fixed fun _ => by rw [NodeRecord.offer_of_none hsupplied]⟩
  | some supplied =>
    rw [hsupplied] at h
    change verifySkipParameters node supplied ctx s = .done () u at h
    have honly : ∀ {p e'}, s.renderer.pass.target.document.node? node = some ⟨p, .element e'⟩ →
        e' = e := fun hn => Option.some.inj ((Document.element?_of_node? hn).symm.trans he)
    obtain ⟨hnone, hrun⟩ | ⟨hsame, hrun⟩ | ⟨old, -, -, ⟨element, hrun⟩ | ⟨f, hrun⟩⟩ :=
      verifySkipParameters_cases ctx supplied he
    all_goals
      rw [hrun] at h
      cases h
    · refine ⟨⟨rfl, rfl⟩, rfl, ?_⟩
      have hupdate := Document.Retouches.updateElement s.renderer.pass.target.document node fun e =>
        { e with record := { e.record with skipParameters := some supplied.indentedText } }
      refine ⟨fun {p e'} hn => ?_, hupdate.other⟩
      obtain rfl := honly hn
      rw [NodeRecord.offer, hnone, hsupplied]
      exact hupdate.element hn
    · refine ⟨.refl s, rfl, .of_fixed fun {p e'} hn => ?_⟩
      obtain rfl := honly hn
      rw [NodeRecord.offer_of_some hsame]

theorem readTarget_done {α : Type} {read : KeyedDom → Except Fault α} {a : α}
    (h : readTarget read ctx s = .done a u) : s = u ∧ read s.renderer.pass.target = .ok a := by
  simp only [readTarget, bind_run, renderer] at h
  cases hread : read s.renderer.pass.target with
  | ok b =>
    rw [hread] at h
    cases h
    exact ⟨rfl, rfl⟩
  | error f =>
    rw [hread] at h
    cases h

variable {name key : String}

theorem stampKey_done (hs : s.renderer.layers = []) {g : Frame} {below : List Frame} {e : Element}
    (hframes : s.renderer.pass.target.frames = ⟨node, 0⟩ :: g :: below)
    (he : s.renderer.pass.target.document.element? node = some e)
    (h : stampKey key ctx s = .done () u) :
    s.Redraws u ∧
      u.renderer.pass.target =
        { s.renderer.pass.target with document := u.renderer.pass.target.document } ∧
      s.renderer.pass.target.document.Retouches node (.stamped ctx.stampsKeys key)
        u.renderer.pass.target.document := by
  rw [stampKey_run] at h
  cases hstamps : ctx.stampsKeys with
  | false =>
    rw [hstamps] at h
    cases h
    exact ⟨.refl s, rfl, .of_fixed fun _ => rfl⟩
  | true =>
    rw [hstamps, if_pos rfl] at h
    obtain ⟨-, answer, hcall⟩ := emit_of_endsIn hs (.inl ⟨_, h⟩)
    have hassigned := (callTarget_done hcall).1
    rw [show RenderTarget.apply (.setAttribute serverKeyAttribute key) _ = _ from
      KeyedDom.setAttribute_eq hframes he] at hassigned
    obtain ⟨-, htarget⟩ := Prod.mk.inj (Except.ok.inj hassigned)
    have hset := Document.Retouches.updateElement s.renderer.pass.target.document node
      (.setAttribute serverKeyAttribute key)
    rw [← htarget]
    exact ⟨.callTarget hcall, rfl, hset⟩

theorem openServerElement_passesBy (hs : s.renderer.layers = [])
    (hordered : s.renderer.pass.target.Ordered) {parameters : Option Payload}
    (h : openServerElement name key parameters ctx s = .done false u) :
    s.Redraws u ∧ ∃ node f,
      s.renderer.pass.target.PassesBy f node (.served ctx.stampsKeys key parameters)
        u.renderer.pass.target := by
  rw [openServerElement_run ctx hs] at h
  obtain ⟨opened, s₂, hserved, h⟩ := bind_eq_done.1 h
  obtain ⟨_, s₁, hopen, hserved⟩ := bind_eq_done.1 hserved
  obtain ⟨_, _, hset, hreturn⟩ := bind_eq_done.1 hserved
  cases hreturn
  cases opened with
  | none => cases h
  | some node =>
  obtain ⟨hopened, hlayers⟩ := callTarget_done hopen
  obtain ⟨helement, g, below, hframes⟩ := KeyedDom.openElement_some hopened
  obtain ⟨e, he⟩ := Option.isSome_iff_exists.1 helement
  obtain ⟨hdrawn₁, hrest₁, hstamp⟩ := stampKey_done (hlayers.trans hs) hframes he hset
  obtain ⟨p, hn⟩ := Document.node?_of_element? he
  have he₂ : s₂.renderer.pass.target.document.element? node =
      some (e.stamped ctx.stampsKeys key) := Document.element?_of_node? (hstamp.element hn)
  obtain ⟨content, _, hread, h⟩ := bind_eq_done.1 h
  obtain ⟨rfl, hcontent⟩ := readTarget_done hread
  cases content with
  | false => cases h
  | true =>
  have hlive : s.renderer.pass.target.document.isLive node = true := by
    by_contra hdead
    have hnew := KeyedDom.openElement_new_of_not_isLive hordered (Bool.not_eq_true _ ▸ hdead) hopened
    obtain rfl := Option.some.inj (he.symm.trans hnew)
    have hempty : s₂.renderer.pass.target.hasContent node = .ok true := hcontent
    rw [KeyedDom.hasContent_eq he₂, Element.stamped] at hempty
    split at hempty <;> cases hempty
  obtain ⟨_, s₃, hverify, h⟩ := bind_eq_done.1 h
  obtain ⟨hdrawn, hrest, hrecord⟩ := verifyServed_done he₂ hverify
  have hdrawn₂ : s.Redraws s₂ := (RenderState.Redraws.callTarget hopen).trans hdrawn₁
  have hretouch : s₁.renderer.pass.target.document.Retouches node
      (.served ctx.stampsKeys key parameters) s₃.renderer.pass.target.document := by
    have hboth := hstamp.trans hrecord
    simp only [Function.comp_def, Element.record_stamped] at hboth
    exact hboth
  have hrest₃ : s₃.renderer.pass.target =
      { s₁.renderer.pass.target with document := s₃.renderer.pass.target.document } := by
    rw [hrest, hrest₁]
  obtain ⟨t, f, hclose, hpassed⟩ :=
    KeyedDom.passesBy_of_openElement hordered.tree hlive hopened hrest₃ hretouch
  have hlayers₃ : s₃.renderer.layers = [] := (hdrawn₂.trans hdrawn).layers.trans hs
  obtain ⟨v, hskip, hdrawn', rfl⟩ := closeSkipped_run ctx hlayers₃ hclose
  rw [show skipServed ctx s₃ = .done false v from hskip false] at h
  cases h
  exact ⟨(hdrawn₂.trans hdrawn).trans hdrawn', node, f, hpassed⟩

theorem maybeSkip_passesBy (hs : s.renderer.layers = [])
    (htree : s.renderer.pass.target.document.IsTree)
    (hlive : s.renderer.pass.target.document.isLive node = true)
    (h : openElement name key ctx s = .done (some node) u) :
    ∃ v, maybeSkip true ctx u = .done true v ∧ s.Redraws v ∧
      ∃ f, s.renderer.pass.target.PassesBy f node id v.renderer.pass.target := by
  rw [openElement_run (by rw [hs]; rfl)] at h
  obtain ⟨hopened, hlayers⟩ := callTarget_done h
  obtain ⟨t, f, hclose, hpassed⟩ :=
    KeyedDom.passesBy_of_openElement htree hlive hopened rfl (.refl _ _)
  obtain ⟨v, hskip, hdrawn, rfl⟩ := closeSkipped_run ctx (hlayers.trans hs) hclose
  refine ⟨v, ?_, (RenderState.Redraws.callTarget h).trans hdrawn, f, hpassed⟩
  have hkind : u.renderer.kind = .default := by rw [Renderer.kind, hlayers, hs]
  simp only [maybeSkip, bind_run, renderer, hkind, if_true]
  exact hskip true

end RenderM

theorem Scripted.holds {E : ComponentId → Prop} {I : Condition KeyedDom} (hI : CallInvariant E I)
    {ctx : Context} {ms : List (Moment KeyedDom)} (h : Scripted I ctx ms) :
    ∀ m ∈ ms, I m.state.renderer.pass.target m.state.shared.registry := by
  induction h with
  | none => simp
  | @script script s hs =>
    intro m hm
    have hguides : Guides (fun _ => True) ctx.watched (Conserves I) :=
      .of_stable (fun _ _ => trivial) (fun _ => trivial) hI.stable
    obtain ⟨before, after, hsplit⟩ := List.append_of_mem hm
    exact (script.approaches hguides script.all_trivial ctx s before m after rfl hsplit).course hs
  | append _ _ ih ih' => exact fun m hm => (List.mem_append.1 hm).elim (ih m) (ih' m)

namespace Session

variable {s : Session KeyedDom} {a : Act} {m : Moment KeyedDom}

/-- At every step of a pass whose calls reach the target, an element that is opened by its server's
key and not to be rendered is passed by, and so is one that was there before and is opened and
skipped. Besides the target, only the log is different. -/
theorem skipped_passesBy (h : Reached Addresses s) (ha : s.Addresses a) (hm : m ∈ s.momentsOf a)
    (hl : m.state.renderer.layers = []) (name key : String) :
    (∀ parameters u,
      openServerElement name key parameters m.context m.state = .done false u →
      m.state.Redraws u ∧ ∃ node f, m.state.renderer.pass.target.PassesBy f node
        (.served m.context.stampsKeys key parameters) u.renderer.pass.target) ∧
    ∀ node u, openElement name key m.context m.state = .done (some node) u →
      m.state.renderer.pass.target.document.isLive node = true →
      ∃ v, maybeSkip true m.context u = .done true v ∧ m.state.Redraws v ∧
        ∃ f, m.state.renderer.pass.target.PassesBy f node id v.renderer.pass.target := by
  obtain ⟨ctx, -, hscripted⟩ := scripted_momentsOf h.orderly ha
  obtain ⟨hordered, -⟩ := hscripted.holds orderly_calls m hm
  exact ⟨fun _ _ hserved => openServerElement_passesBy hl hordered hserved,
    fun _ _ hopen hlive => maybeSkip_passesBy hl hordered.tree hlive hopen⟩

/-- Two items, the second one with content. -/
def itemSession : Session KeyedDom :=
  ⟨{ KeyedDom.new with document := ⟨#[
    some ⟨none, .element { Element.new "body" "" with children := [1, 2] }⟩,
    some ⟨some 0, .element (.new "li" "1:a")⟩,
    some ⟨some 0, .element { Element.new "li" "1:b" with children := [3] }⟩,
    some ⟨some 2, .text "x"⟩]⟩ }, .empty⟩

def itemPass : Act :=
  .pass ⟨"", .null, loggedText, true⟩ (.bracketed 0 .inner .keyed none (.step .current .done))

/-- At the beginning of a pass, the second item is skipped in both ways. -/
theorem skipped_passesBy_item : ∃ m ∈ itemSession.momentsOf itemPass,
    (∃ u, openServerElement "li" "1:b" none m.context m.state = .done false u ∧
      ∃ node f, m.state.renderer.pass.target.PassesBy f node (.served true "1:b" none)
        u.renderer.pass.target) ∧
    ∃ u, openElement "li" "b" m.context m.state = .done (some 2) u ∧
      ∃ v f, maybeSkip true m.context u = .done true v ∧
        m.state.renderer.pass.target.PassesBy f 2 id v.renderer.pass.target := by
  have hreached : Reached Addresses itemSession :=
    .act (a := .appendText 2 "x") (.act (a := .appendElement 0 "li" "1:b")
      (.act (a := .appendElement 0 "li" "1:a") .start rfl rfl) rfl rfl) rfl rfl
  have hroot : itemSession.Addresses itemPass := rfl
  have hruns : (itemSession.momentsOf itemPass).any (fun m =>
      m.state.renderer.layers.isEmpty && m.context.stampsKeys &&
      m.state.renderer.pass.target.document.isLive 2 &&
      (openServerElement "li" "1:b" none m.context m.state).yields false &&
      (openElement "li" "b" m.context m.state).yields (some 2)) = true := by decide +kernel
  obtain ⟨m, hm, hruns⟩ := List.any_eq_true.1 hruns
  simp only [Bool.and_eq_true, List.isEmpty_iff] at hruns
  obtain ⟨⟨⟨⟨hl, hstamps⟩, hlive⟩, hserved⟩, hopened⟩ := hruns
  obtain ⟨hserver, -⟩ := skipped_passesBy hreached hroot hm hl "li" "1:b"
  rw [hstamps] at hserver
  obtain ⟨-, hskip⟩ := skipped_passesBy hreached hroot hm hl "li" "b"
  obtain ⟨u, hrun⟩ := Outcome.done_of_yields hserved
  obtain ⟨u', hrun'⟩ := Outcome.done_of_yields hopened
  obtain ⟨v, hv, -, f, hpassed⟩ := hskip 2 u' hrun' hlive
  exact ⟨m, hm, ⟨u, hrun, (hserver none u hrun).2⟩, u', hrun', v, f, hv, hpassed⟩

end Session

end KeyedRender
