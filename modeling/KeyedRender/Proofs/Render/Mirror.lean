import KeyedRender.Proofs.Document.Plain
import KeyedRender.Proofs.Render.Paired
import KeyedRender.Proofs.Render.Success

/-!
# Targets that mirror each other

Two targets mirror each other if they answer every call of a renderer alike, and if what a
renderer reads of them is the same. A call may leave them in a relation of its own for the calls
that come next. The calls of a renderer then go the same way on both.
-/
namespace KeyedRender

open RenderTarget (apply)

section

variable {τ ρ α β : Type} [RenderTarget τ] [RenderTarget ρ]

def Together (call : TargetCall) (t : τ) (u : ρ) (B : Option NodeId → τ → ρ → Prop) : Prop :=
  ∃ answer t' u', apply call t = .ok (answer, t') ∧ apply call u = .ok (answer, u') ∧ B answer t' u'

def TargetCall.IsPlain : TargetCall → Prop
  | .beginPatch _ _ _ => False
  | .endPatch => False
  | .openElement _ _ => False
  | .setInnerMarkup _ _ => False
  | .appendComment _ _ => False
  | _ => True

theorem TargetCall.Assigns.isPlain {call : TargetCall} (h : call.Assigns) : call.IsPlain := by
  cases call <;> first | exact h.elim | trivial

/-- What two targets must do to mirror each other. The node of `opened` was just opened and got
nothing but attributes yet, and `commented` targets got a comment that is not passed yet. -/
structure Mirror (τ ρ : Type) [RenderTarget τ] [RenderTarget ρ] where
  alike : τ → ρ → Prop
  opened : NodeId → τ → ρ → Prop
  commented : τ → ρ → Prop
  documents : ∀ {t u}, alike t u →
    (RenderTarget.document t).plain = (RenderTarget.document u).plain
  pointer : ∀ {t u}, alike t u → RenderTarget.pointer? t = none ∧ RenderTarget.pointer? u = none
  current : ∀ {t u}, alike t u → RenderTarget.current? t = RenderTarget.current? u
  plain : ∀ {t u}, alike t u → ∀ {call : TargetCall}, call.IsPlain →
    Together call t u fun _ => alike
  opens : ∀ {t u}, alike t u → ∀ name key, Together (.openElement name key) t u
    fun answer t u => ∃ node, answer = some node ∧ opened node t u
  alike_of_opened : ∀ {node t u}, opened node t u → alike t u
  assigns : ∀ {node t u}, opened node t u → ∀ {call : TargetCall}, call.Assigns →
    Together call t u fun _ => opened node
  content : ∀ {node t u}, opened node t u →
    RenderTarget.hasContent t node = RenderTarget.hasContent u node
  described : ∀ {node t u}, opened node t u → RenderTarget.hasContent t node = .ok true →
    RenderTarget.describe t node = RenderTarget.describe u node
  fills : ∀ {node t u}, opened node t u → ∀ markup,
    Together (.setInnerMarkup node markup) t u fun _ => alike
  comments : ∀ {t u}, alike t u → ∀ {node}, RenderTarget.current? t = some node → ∀ value,
    Together (.appendComment node value) t u fun _ => commented
  passes : ∀ {t u}, commented t u → Together .skipNode t u fun _ => alike
  records : ∀ {t u}, alike t u → ∀ node change, alike
    (RenderTarget.withDocument t ((RenderTarget.document t).updateRecord node change))
    (RenderTarget.withDocument u ((RenderTarget.document u).updateRecord node change))
  attaches : ∀ {t u}, alike t u → ∀ id c root, alike
    (RenderTarget.withDocument t (attachedDocument (RenderTarget.document t) id c root))
    (RenderTarget.withDocument u (attachedDocument (RenderTarget.document u) id c root))

omit [RenderTarget τ] [RenderTarget ρ] in
theorem Alongside.mono {A B : τ → ρ → Prop} (hAB : ∀ t u, A t u → B t u) {s : RenderState τ}
    {s' : RenderState ρ} (h : Alongside A s s') : Alongside B s s' := by
  obtain ⟨hblind, u, hu, rfl⟩ := h
  exact ⟨hblind, u, hAB _ _ hu, rfl⟩

namespace Paired

open RenderM

variable {R : RenderState τ → RenderState ρ → Prop} {A B : τ → ρ → Prop}
  {Q : α → RenderState τ → RenderState ρ → Prop}

theorem callTarget {call : TargetCall} {C : Option NodeId → τ → ρ → Prop}
    (h : ∀ t u, A t u → Together call t u C) :
    Paired R (Alongside A) (RenderM.callTarget call) (RenderM.callTarget call)
      fun answer => Alongside (C answer) := by
  rintro ctx s _ ⟨hblind, u, hu, rfl⟩
  obtain ⟨answer, t', u', ht, hu', hC⟩ := h _ _ hu
  simp only [RenderM.callTarget, ht, Renderer.target_on, hu']
  refine .done ⟨?_, u', hC, rfl⟩
  split
  · exact hblind.push trivial
  · exact hblind

theorem emit? {call : TargetCall} {C : Option NodeId → τ → ρ → Prop}
    (h : ∀ t u, A t u → Together call t u C) (hnone : ∀ t u, A t u → C none t u) :
    Paired R (Alongside A) (RenderM.emit? call) (RenderM.emit? call)
      fun answer => Alongside (C answer) := by
  refine .renderer fun r u _ => ?_
  simp only [Renderer.kind_on]
  cases r.kind with
  | default => exact .callTarget h
  | muted => exact .pure fun _ _ hs => hs.mono hnone
  | probe => exact .bind .markRendered fun _ => .pure fun _ _ hs => hs.mono hnone

theorem emit {call : TargetCall} (h : ∀ t u, A t u → Together call t u fun _ => B)
    (hAB : ∀ t u, A t u → B t u) :
    Paired R (Alongside A) (RenderM.emit call) (RenderM.emit call) fun _ => Alongside B :=
  .bind (.emit? h hAB) fun _ => .pure fun _ _ hs => hs

theorem emit_barely {call : TargetCall} (h : ∀ t u, A t u → Together call t u fun _ => B) :
    Paired R (BarelyAlongside A) (RenderM.emit call) (RenderM.emit call)
      fun _ => BarelyAlongside B := by
  rintro ctx s _ ⟨hl, hblind, u, hu, rfl⟩
  obtain ⟨answer, t', u', ht, hu', hB⟩ := h _ _ hu
  have hrun : RenderM.emit? call ctx s = RenderM.callTarget call ctx s :=
    emit?_run (List.length_eq_zero_iff.2 hl) call
  have hrun' : RenderM.emit? call ctx ⟨s.renderer.on u, s.shared⟩ = RenderM.callTarget call ctx _ :=
    emit?_run (s := ⟨s.renderer.on u, s.shared⟩) (List.length_eq_zero_iff.2 hl) call
  simp only [RenderM.emit, bind_run, hrun, hrun', RenderM.callTarget, ht, Renderer.target_on, hu',
    pure_run]
  refine .done ⟨hl, ?_, u', hB, rfl⟩
  split
  · exact hblind.push trivial
  · exact hblind

theorem setAttribute (h : ∀ t u, A t u → ∀ {call : TargetCall}, call.Assigns →
      Together call t u fun _ => A) (name value : String) :
    Paired R (Alongside A) (RenderM.setAttribute name value) (RenderM.setAttribute name value)
      fun _ => Alongside A := by
  have assigned : ∀ {call : TargetCall}, call.Assigns → Paired R (Alongside A) (RenderM.emit call)
      (RenderM.emit call) fun _ => Alongside A := fun hcall =>
    .emit (fun t u hA => h t u hA hcall) fun _ _ hA => hA
  exact .bind (assigned trivial) fun _ => .ite (assigned trivial)
    (.ite (assigned trivial) (.pure fun _ _ hs => hs))

theorem stampKey (h : ∀ t u, A t u → ∀ {call : TargetCall}, call.Assigns →
      Together call t u fun _ => A) (key : String) :
    Paired R (Alongside A) (RenderM.stampKey key) (RenderM.stampKey key) fun _ => Alongside A :=
  .context fun _ => .ite (setAttribute h _ key) (.pure fun _ _ hs => hs)

omit [RenderTarget τ] [RenderTarget ρ] in
theorem readTarget {read : τ → Except Fault α} {read' : ρ → Except Fault α}
    (h : ∀ t u, A t u → read t = read' u) :
    Paired R (Alongside A) (RenderM.readTarget read) (RenderM.readTarget read')
      fun a => Alongside fun t u => A t u ∧ read t = .ok a := by
  rintro ctx s _ ⟨hblind, u, hu, rfl⟩
  simp only [RenderM.readTarget, bind_run, RenderM.renderer, Renderer.target_on, ← h _ _ hu]
  cases hread : read s.renderer.pass.target with
  | ok a => exact .done ⟨hblind, u, ⟨hu, hread⟩, rfl⟩
  | error f => exact .broken

theorem targetDocument {P : RenderState τ → RenderState ρ → Prop} {next : Document → RenderM τ α}
    {next' : Document → RenderM ρ α}
    (hP : ∀ s s', P s s' → (RenderTarget.document s.renderer.pass.target).plain =
      (RenderTarget.document s'.renderer.pass.target).plain)
    (h : ∀ d d', d.plain = d'.plain → Paired R P (next d) (next' d') Q) :
    Paired R P (RenderM.targetDocument >>= next) (RenderM.targetDocument >>= next') Q :=
  fun ctx s s' hs => h _ _ (hP s s' hs) ctx s s' hs

end Paired

namespace Document

variable {d d' : Document}

theorem record?_eq_of_plain (h : d.plain = d'.plain) (id : NodeId) :
    d.record? id = d'.record? id := by
  rw [← record?_plain, h, record?_plain]

theorem holds_plain_iff (node : NodeId) (id : ComponentId) :
    RenderM.Holds d.plain node id ↔ RenderM.Holds d node id := by
  simp only [RenderM.Holds, record?_plain]

theorem plain_detach (id : ComponentId) (previous : Option NodeId) (root : NodeId) :
    (RenderM.detach d id previous root).plain = RenderM.detach d.plain id previous root := by
  unfold RenderM.detach
  cases previous with
  | none => rfl
  | some node =>
    simp only [holds_plain_iff]
    split
    · exact plain_updateRecord ..
    · rfl

theorem plain_attachedDocument (id : ComponentId) (c : Component) (root : NodeId) :
    (attachedDocument d id c root).plain = attachedDocument d.plain id c root := by
  simp only [attachedDocument, ← plain_detach, holds_plain_iff]
  split
  · rfl
  · exact plain_updateRecord ..

theorem attachedRegistry_eq_of_plain (h : d.plain = d'.plain) (g : Registry) (id : ComponentId)
    (c : Component) (root : NodeId) :
    attachedRegistry d g id c root = attachedRegistry d' g id c root := by
  have hdetach : (RenderM.detach d id c.node root).plain =
      (RenderM.detach d' id c.node root).plain := by
    rw [plain_detach, h, plain_detach]
  rw [attachedRegistry, attachedRegistry, record?_eq_of_plain hdetach]

end Document

namespace Mirror

open RenderM

variable (M : Mirror τ ρ)

theorem documents_of_alongside {s : RenderState τ} {s' : RenderState ρ}
    (h : Alongside M.alike s s') : (RenderTarget.document s.renderer.pass.target).plain =
      (RenderTarget.document s'.renderer.pass.target).plain := by
  obtain ⟨-, u, hu, rfl⟩ := h
  exact M.documents hu

theorem emit {call : TargetCall} (h : call.IsPlain) :
    InStep M.alike (RenderM.emit call) (RenderM.emit call) :=
  .emit (fun _ _ hA => M.plain hA h) fun _ _ hA => hA

theorem text (value : String) : InStep M.alike (RenderM.text value) (RenderM.text value) :=
  .emit? (fun _ _ hA => M.plain hA trivial) fun _ _ hA => hA

theorem closeElement :
    InStep M.alike (RenderM.closeElement (τ := τ)) (RenderM.closeElement (τ := ρ)) :=
  .emit? (fun _ _ hA => M.plain hA trivial) fun _ _ hA => hA

theorem setAttribute (name value : String) :
    InStep M.alike (RenderM.setAttribute name value) (RenderM.setAttribute name value) :=
  .setAttribute (fun _ _ hA _ hcall => M.plain hA hcall.isPlain) name value

theorem stampKey (key : String) : InStep M.alike (RenderM.stampKey key) (RenderM.stampKey key) :=
  .stampKey (fun _ _ hA _ hcall => M.plain hA hcall.isPlain) key

theorem setAttributes (attributes : List (String × String)) :
    InStep M.alike (RenderM.setAttributes attributes) (RenderM.setAttributes attributes) := by
  induction attributes with
  | nil => exact .pure fun _ _ hs => hs
  | cons a rest ih => exact .bind (M.setAttribute _ _) fun _ => ih

def openedOr (answer : Option NodeId) (t : τ) (u : ρ) : Prop :=
  match answer with
  | some node => M.opened node t u
  | none => M.alike t u

theorem alike_of_openedOr {answer : Option NodeId} {t : τ} {u : ρ} (h : M.openedOr answer t u) :
    M.alike t u := by
  cases answer with
  | none => exact h
  | some node => exact M.alike_of_opened h

theorem callOpen {R : RenderState τ → RenderState ρ → Prop} (name key : String) :
    Paired R (Alongside M.alike) (RenderM.callTarget (.openElement name key))
      (RenderM.callTarget (.openElement name key)) fun answer => Alongside (M.openedOr answer) := by
  refine .callTarget fun t u hA => ?_
  obtain ⟨answer, t', u', ht, hu, node, rfl, hnode⟩ := M.opens hA name key
  exact ⟨some node, t', u', ht, hu, hnode⟩

theorem openElement {R : RenderState τ → RenderState ρ → Prop} (name key : String) :
    Paired R (Alongside M.alike) (RenderM.openElement name key) (RenderM.openElement name key)
      fun answer => Alongside (M.openedOr answer) := by
  refine .renderer fun r u _ => ?_
  simp only [Renderer.newKey_on]
  refine .emit? (fun t u hA => ?_) fun _ _ hA => hA
  obtain ⟨answer, t', u', ht, hu, node, rfl, hnode⟩ := M.opens hA name (r.newKey (.text key))
  exact ⟨some node, t', u', ht, hu, hnode⟩

theorem maybeSkip (told : Bool) :
    InStep M.alike (RenderM.maybeSkip (τ := τ) told) (RenderM.maybeSkip (τ := ρ) told) := by
  refine .renderer fun r u _ => ?_
  simp only [Renderer.kind_on]
  cases r.kind with
  | default =>
    refine .ite (.bind (M.emit trivial) fun _ => .bind (M.emit trivial) fun _ => ?_) ?_
    · exact .pure fun _ _ hs => hs
    · exact .pure fun _ _ hs => hs
  | muted => exact .pure fun _ _ hs => hs
  | probe => exact .bind .markRendered fun _ => .pure fun _ _ hs => hs

theorem changeRecord (node : NodeId) (change : NodeRecord → NodeRecord) :
    InStep M.alike (RenderM.changeRecord (τ := τ) node change)
      (RenderM.changeRecord (τ := ρ) node change) := by
  rintro ctx s _ ⟨hblind, u, hu, rfl⟩
  exact .done ⟨hblind, _, M.records hu node change, rfl⟩

theorem verifySkipParameters (node : NodeId) (parameters : Payload) :
    Paired (Alongside M.alike)
      (Alongside fun t u => M.opened node t u ∧ RenderTarget.hasContent t node = .ok true)
      (RenderM.verifySkipParameters (τ := τ) node parameters)
      (RenderM.verifySkipParameters (τ := ρ) node parameters) fun _ => Alongside M.alike := by
  have still : ∀ s s', Alongside (fun t u => M.opened node t u ∧
      RenderTarget.hasContent t node = .ok true) s s' → Alongside M.alike s s' :=
    fun s s' hs => hs.mono fun _ _ h => M.alike_of_opened h.1
  refine .targetDocument (fun s s' hs => M.documents_of_alongside (still s s' hs)) fun d d' hd => ?_
  rw [← Document.record?_eq_of_plain hd]
  cases d.record? node with
  | none => exact .pure still
  | some record =>
    dsimp only
    cases record.skipParameters with
    | none => exact (M.changeRecord _ _).pre still
    | some old =>
      refine .ite ?_ (.pure still)
      refine .bind (.readTarget fun t u h => M.described h.1 h.2) fun element => .fail ?_
      exact fun s s' hs => hs.mono fun _ _ h => M.alike_of_opened h.1.1

theorem openServerElement (name key : String) (parameters : Option Payload) :
    InStep M.alike (RenderM.openServerElement (τ := τ) name key parameters)
      (RenderM.openServerElement (τ := ρ) name key parameters) := by
  have close : InStep M.alike (do
      RenderM.emit (τ := τ) .skip
      RenderM.emit .closeElement
      return false) (do
      RenderM.emit (τ := ρ) .skip
      RenderM.emit .closeElement
      return false) :=
    .bind (M.emit trivial) fun _ => .bind (M.emit trivial) fun _ => .pure fun _ _ hs => hs
  refine .renderer fun r u _ => ?_
  simp only [Renderer.kind_on]
  cases r.kind with
  | muted => exact .pure fun _ _ hs => hs
  | probe => exact .bind .markRendered fun _ => .pure fun _ _ hs => hs
  | default =>
    refine .bind (M.callOpen name key) fun opened => ?_
    cases opened with
    | none => exact .bind (M.stampKey key) fun _ => .pure fun _ _ hs => hs
    | some node =>
      refine .bind (.stampKey (fun _ _ h _ hcall => M.assigns h hcall) key) fun _ => ?_
      refine .bind (.readTarget fun t u h => M.content h) fun hasContent => ?_
      cases hasContent with
      | false => exact .pure fun s s' hs => hs.mono fun _ _ h => M.alike_of_opened h.1
      | true =>
        cases parameters.filter Payload.isSupplied with
        | none => exact close.pre fun s s' hs => hs.mono fun _ _ h => M.alike_of_opened h.1
        | some supplied => exact .bind (M.verifySkipParameters node supplied) fun _ => close

theorem writeBlob (node : NodeId) (markup : String) :
    Paired (Alongside M.alike) (Alongside (M.opened node)) (RenderM.writeBlob (τ := τ) node markup)
      (RenderM.writeBlob (τ := ρ) node markup) fun _ => Alongside M.alike := by
  have still : ∀ s s', Alongside (M.opened node) s s' → Alongside M.alike s s' :=
    fun s s' hs => hs.mono fun _ _ h => M.alike_of_opened h
  refine .targetDocument (fun s s' hs => M.documents_of_alongside (still s s' hs)) fun d d' hd => ?_
  rw [← Document.record?_eq_of_plain hd]
  exact .ite (.bind (.emit (fun _ _ h => M.fills h markup) fun _ _ h => M.alike_of_opened h)
    fun _ => M.changeRecord _ _) (.pure still)

theorem printContent (value : Printable) :
    InStep M.alike (RenderM.printContent (τ := τ) value) (RenderM.printContent (τ := ρ) value) :=
  .bind (M.text _) fun _ => .pure fun _ _ hs => hs

theorem print (value : Printable) :
    InStep M.alike (RenderM.print (τ := τ) value) (RenderM.print (τ := ρ) value) := by
  cases value with
  | sanitizedHtml markup =>
    refine .ite (.bind (M.openElement _ _) fun blob => ?_) (M.printContent _)
    have close : InStep M.alike (do
        RenderM.emit (τ := τ) .skip
        RenderM.emit .closeElement) (do
        RenderM.emit (τ := ρ) .skip
        RenderM.emit .closeElement) := .bind (M.emit trivial) fun _ => M.emit trivial
    cases blob with
    | none => exact close
    | some node => exact .bind (M.writeBlob node markup) fun _ => close
  | _ => exact M.printContent _

theorem comment_current (element : NodeId) (value : String) :
    Paired (Alongside M.alike)
      (BarelyAlongside fun t u => M.alike t u ∧ RenderTarget.current? t = some element)
      (do
        let document ← RenderM.targetDocument
        match (document.nextSibling? element).filter document.isComment with
        | some existing => RenderM.emit (.setComment existing value)
        | none => RenderM.emit (.appendComment element value)
        RenderM.emit .skipNode)
      (do
        let document ← RenderM.targetDocument
        match (document.nextSibling? element).filter document.isComment with
        | some existing => RenderM.emit (.setComment existing value)
        | none => RenderM.emit (.appendComment element value)
        RenderM.emit .skipNode) fun _ => Alongside M.alike := by
  refine .targetDocument (fun s s' hs => M.documents_of_alongside (hs.2.mono fun _ _ h => h.1))
    fun d d' hd => ?_
  have hexisting : (d.nextSibling? element).filter d.isComment =
      (d'.nextSibling? element).filter d'.isComment := by
    have hcomment : d.isComment = d'.isComment := funext fun id => by
      rw [← Document.isComment_plain, hd, Document.isComment_plain]
    rw [← Document.nextSibling?_plain, hd, Document.nextSibling?_plain, hcomment]
  rw [← hexisting]
  cases (d.nextSibling? element).filter d.isComment with
  | some existing =>
    refine .bind (.emit_barely fun t u h => M.plain h.1 trivial) fun _ => ?_
    exact (Paired.emit_barely fun t u h =>
      M.plain h (show TargetCall.skipNode.IsPlain from trivial)).post
      fun _ _ _ hs => hs.2
  | none =>
    refine .bind (.emit_barely fun t u h => M.comments h.1 h.2 value) fun _ => ?_
    exact (Paired.emit_barely fun t u h => M.passes h).post fun _ _ _ hs => hs.2

theorem comment (value : String) :
    InStep M.alike (RenderM.comment (τ := τ) value) (RenderM.comment (τ := ρ) value) := by
  rintro ctx s _ ⟨hblind, u, hu, rfl⟩
  by_cases hl : s.renderer.layers = []
  · have ht : s.renderer.target? = some s.renderer.pass.target := by
      simp [Renderer.target?, hl]
    have hu' : (s.renderer.on u).target? = some u := by
      simp [Renderer.target?, hl]
    simp only [RenderM.comment, RenderM.current?, bind_run, RenderM.renderer, pure_run, ht, hu',
      Option.bind_some, ← M.current hu]
    cases hcurrent : RenderTarget.current? s.renderer.pass.target with
    | none => exact .done ⟨hblind, u, hu, rfl⟩
    | some element =>
      exact M.comment_current element value ctx s _ ⟨hl, hblind, u, ⟨hu, hcurrent⟩, rfl⟩
  · have ht : s.renderer.target? = none := by simp [Renderer.target?, hl]
    have hu' : (s.renderer.on u).target? = none := by simp [Renderer.target?, hl]
    simp only [RenderM.comment, RenderM.current?, bind_run, RenderM.renderer, pure_run, ht, hu',
      Option.bind_none]
    exact .done ⟨hblind, u, hu, rfl⟩

theorem findComponent?_none {s : RenderState τ} {u : ρ} (hu : M.alike s.renderer.pass.target u)
    (type : ComponentType) (key : String) (ctx : Context) :
    RenderM.findComponent? type key ctx s = .done none s ∧
    RenderM.findComponent? type key ctx ⟨s.renderer.on u, s.shared⟩ =
      .done none ⟨s.renderer.on u, s.shared⟩ := by
  by_cases hl : s.renderer.layers = []
  · simp [RenderM.findComponent?, bind_run, RenderM.state, Renderer.target?, hl, pure_run,
      (M.pointer hu).1, (M.pointer hu).2, Document.siblingsFrom_none, findAttached?]
  · simp [RenderM.findComponent?, bind_run, RenderM.state, Renderer.target?, hl, pure_run]

theorem findComponent? (type : ComponentType) (key : String) :
    InStep M.alike (RenderM.findComponent? (τ := τ) type key)
      (RenderM.findComponent? (τ := ρ) type key) := by
  rintro ctx s _ ⟨hblind, u, hu, rfl⟩
  obtain ⟨ht, hu'⟩ := M.findComponent?_none hu type key ctx
  rw [ht, hu']
  exact .done ⟨hblind, u, hu, rfl⟩

theorem attach (id : ComponentId) (root : NodeId) :
    InStep M.alike (RenderM.attach (τ := τ) id root) (RenderM.attach (τ := ρ) id root) := by
  rintro ctx s _ ⟨hblind, u, hu, rfl⟩
  have hidden : (s.renderer.layers.length = 0 → s.shared.registry.component? id = none) →
      (RenderM.attach id root ctx s).Matches (Alongside M.alike) (fun _ => Alongside M.alike)
        (RenderM.attach id root ctx ⟨s.renderer.on u, s.shared⟩) := fun h => by
    have hrun : RenderM.attach id root ctx s = .done () s := Stable.attach_run_hidden h root
    have hrun' : RenderM.attach id root ctx ⟨s.renderer.on u, s.shared⟩ = .done () _ :=
      Stable.attach_run_hidden (s := ⟨s.renderer.on u, s.shared⟩) h root
    rw [hrun, hrun']
    exact .done ⟨hblind, u, hu, rfl⟩
  by_cases hl : s.renderer.layers.length = 0
  · cases hc : s.shared.registry.component? id with
    | some c =>
      have hrun : RenderM.attach id root ctx s = _ := Stable.attach_run hl hc root
      have hrun' : RenderM.attach id root ctx ⟨s.renderer.on u, s.shared⟩ = _ :=
        Stable.attach_run (s := ⟨s.renderer.on u, s.shared⟩) hl hc root
      rw [hrun, hrun']
      refine .done ⟨hblind, _, M.attaches hu id c root, ?_⟩
      rw [Document.attachedRegistry_eq_of_plain (M.documents hu)]
      rfl
    | none => exact hidden fun _ => hc
  · exact hidden fun h => absurd h hl

theorem held_on {r : Renderer τ} {u : ρ} (h : M.alike r.pass.target u) :
    (r.on u).held = r.held := by
  have hattached : (RenderTarget.document u).attached =
      (RenderTarget.document r.pass.target).attached := by
    rw [← Document.attached_plain, ← M.documents h, Document.attached_plain]
  simp only [Renderer.held, Renderer.target_on, hattached]
  rfl

theorem liveComponents :
    InStep M.alike (RenderM.liveComponents (τ := τ)) (RenderM.liveComponents (τ := ρ)) := by
  refine .context fun ctx => .renderer fun r u hu => ?_
  rw [M.held_on hu]
  exact .pure fun _ _ hs => hs

theorem requeue (index : Nat) :
    InStep M.alike (RenderM.requeue (τ := τ) index) (RenderM.requeue (τ := ρ) index) := by
  refine .state fun s u _ => ?_
  dsimp only
  cases s.shared.registry.known[index]? with
  | none => exact .pure fun _ _ hs => hs
  | some id =>
    refine .bind M.liveComponents fun ids => .ite ?_ (.pure fun _ _ hs => hs)
    exact .bind (.enqueue id) fun _ => .pure fun _ _ hs => hs

end Mirror

end

end KeyedRender
