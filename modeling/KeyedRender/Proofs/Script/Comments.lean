import KeyedRender.Proofs.Document.Attaching
import KeyedRender.Proofs.Document.Editing
import KeyedRender.Proofs.Script.Departures
import KeyedRender.Proofs.Script.Served
import KeyedRender.Proofs.Target.Commented
import KeyedRender.Proofs.Target.Editing

/-!
# Comments during a run

A comment keeps its value until it is rewritten, and what a watched target was called with is
logged. So a comment that says something else after a part of a run was rewritten in it, and the
log of that part tells so.
-/
namespace KeyedRender

open RenderM

namespace Document

variable {d d' : Document} {c : NodeId} {value : String}

structure Reads (d : Document) (c : NodeId) (value : String) : Prop where
  old : c < d.size
  comment : ∀ content, d.content? c = some content → content = .comment value

theorem reads_of_content? (h : d.content? c = some (.comment value)) : d.Reads c value where
  old := by
    obtain ⟨n, hn, -⟩ := Option.map_eq_some_iff.1 h
    exact lt_size_of_node? hn
  comment content hcontent := by
    rw [h] at hcontent
    exact (Option.some.inj hcontent).symm

theorem Reads.content?_of_isLive (h : d.Reads c value) (hc : d.isLive c = true) :
    d.content? c = some (.comment value) := by
  obtain ⟨content, hcontent⟩ := d.content?_of_isLive hc
  rw [hcontent, h.comment content hcontent]

theorem Reads.mono (h : d.Reads c value) (hsize : d.size ≤ d'.size)
    (hc : ∀ content, d'.content? c = some content → d.content? c = some content) :
    d'.Reads c value :=
  ⟨Nat.lt_of_lt_of_le h.old hsize, fun content hcontent => h.comment content (hc content hcontent)⟩

theorem Reads.setContent {id : NodeId} (h : d.Reads c value) (hid : c ≠ id) (content : Content) :
    (d.setContent id content).Reads c value := by
  refine h.mono (Nat.le_of_eq (size_setContent ..).symm) fun content hcontent => ?_
  rwa [content?, node?_setContent, if_neg hid, ← content?] at hcontent

theorem Reads.setComment {id : NodeId} (h : d.Reads c value) (hid : c ≠ id) (new : String) :
    (d.setComment id new).Reads c value := by
  unfold Document.setComment
  split
  · exact h.setContent hid _
  · exact h

theorem Reads.updateElement (h : d.Reads c value) (id : NodeId) (change : Element → Element) :
    (d.updateElement id change).Reads c value := by
  unfold Document.updateElement
  cases he : d.element? id with
  | none => exact h
  | some e =>
    refine h.setContent (fun hid => ?_) _
    have helement := h.comment (.element e) (hid ▸ element?_eq_some_iff.1 he)
    cases helement

theorem editing_reads (c : NodeId) (value : String) :
    Editing fun d d' => d.Reads c value → d'.Reads c value where
  refl _ h := h
  trans h h' hr := h' (h hr)
  updateElement _ id change _ hr := hr.updateElement id change
  setText {d id old} value' hold hr := by
    refine hr.setContent (fun hid => ?_) _
    have htext := hr.comment (.text old) (hid ▸ hold)
    cases htext
  add d parent content _ hr := by
    refine hr.mono (by simp) fun content hcontent => ?_
    rwa [content?, node?_add, if_neg (Nat.ne_of_lt hr.old), ← content?] at hcontent
  erase d id hr := by
    refine hr.mono (Nat.le_of_eq (size_erase ..).symm) fun content hcontent => ?_
    rw [content?, node?_erase] at hcontent
    split at hcontent
    · cases hcontent
    · exact hcontent

end Document

theorem side_log : Side fun sh sh' : Shared => sh.log.toList <+: sh'.log.toList where
  refl _ := List.prefix_rfl
  trans := List.IsPrefix.trans
  log event _ sh := by simp
  savedKeys _ _ := List.prefix_rfl
  learn _ _ _ := List.prefix_rfl
  synchronize sh id := by simp
  created h := ⟨h, fun _ => h⟩

/-- In a part of a run a comment keeps its value, unless the log of the part tells that it was
rewritten. -/
def Upholds (c : NodeId) (value : String) (_ : List (Moment KeyedDom))
    (s t : RenderState KeyedDom) : Prop :=
  ∃ events, t.shared.log.toList = s.shared.log.toList ++ events ∧
    (s.renderer.pass.target.document.Reads c value →
      t.renderer.pass.target.document.Reads c value ∨
        ∃ new, Event.target (.setComment c new) ∈ events)

namespace Upholds

variable {c : NodeId} {value : String} {ms : List (Moment KeyedDom)} {s t : RenderState KeyedDom}

theorem isCourse : Course (Upholds c value) where
  refl s := ⟨[], by simp, .inl⟩
  append {ms ms' s t u} h h' := by
    obtain ⟨events, hlog, hreads⟩ := h
    obtain ⟨events', hlog', hreads'⟩ := h'
    refine ⟨events ++ events', by rw [hlog', hlog, List.append_assoc], fun hr => ?_⟩
    rcases hreads hr with hr | ⟨new, hnew⟩
    · exact (hreads' hr).imp_right fun ⟨new, hnew⟩ => ⟨new, List.mem_append_right _ hnew⟩
    · exact .inr ⟨new, List.mem_append_left _ hnew⟩

theorem edit (hlog : s.shared.log.toList <+: t.shared.log.toList)
    (hreads : s.renderer.pass.target.document.Reads c value →
      t.renderer.pass.target.document.Reads c value) : Upholds c value ms s t := by
  obtain ⟨events, hevents⟩ := hlog
  exact ⟨events, hevents.symm, fun hr => .inl (hreads hr)⟩

theorem quiet (htarget : t.renderer.pass.target = s.renderer.pass.target)
    (hlog : s.shared.log.toList <+: t.shared.log.toList) : Upholds c value ms s t :=
  edit hlog fun hr => htarget ▸ hr

theorem callTarget (call : TargetCall) :
    Traces true (Upholds c value) (RenderM.callTarget call) .none := by
  intro ctx s t hw ht
  obtain ⟨node, hdone⟩ := callTarget_of_endsIn ht
  have happly : KeyedDom.apply call s.renderer.pass.target = .ok (node, t.renderer.pass.target) :=
    (callTarget_done hdone).1
  refine ⟨[.target call], ?_, fun hr => ?_⟩
  · unfold RenderM.callTarget at hdone
    split at hdone
    · cases hdone
    · cases hdone
      simp [hw]
  by_cases hcall : ∃ new, call = .setComment c new
  · obtain ⟨new, rfl⟩ := hcall
    exact .inr ⟨new, List.mem_singleton_self _⟩
  have hedited := KeyedDom.edited_apply (Document.editing_reads c value) call
    s.renderer.pass.target fun id new hid hr =>
      hr.setComment (fun hc => hcall ⟨new, hc ▸ hid⟩) new
  rw [happly] at hedited
  exact .inl (hedited hr)

theorem changeRenderer {change : Renderer KeyedDom → Renderer KeyedDom}
    (h : ∀ r, (change r).pass.target = r.pass.target) :
    Traces true (Upholds c value) (RenderM.changeRenderer change) .none := by
  intro ctx s t _ ht
  obtain rfl := Outcome.EndsIn.done_iff.1 ht
  exact quiet (h _) List.prefix_rfl

theorem updateRecord (s : RenderState KeyedDom) (node : NodeId)
    (change : NodeRecord → NodeRecord) : Upholds c value ms s
      { s with renderer := s.renderer.setTarget (s.renderer.pass.target.setDocument
        (s.renderer.pass.target.document.updateRecord node change)) } :=
  edit List.prefix_rfl fun hr => hr.updateElement node _

theorem attach (id : ComponentId) (root : NodeId) :
    Traces true (Upholds c value) (RenderM.attach id root) .none := by
  intro ctx s t _ ht
  rcases attach_of_endsIn ht with rfl | ⟨-, component, -, rfl⟩
  · exact isCourse.refl t
  · refine edit List.prefix_rfl fun hr => ?_
    show (attachedDocument s.renderer.pass.target.document id component root).Reads c value
    exact Document.of_attachedDocument (P := fun d => d.Reads c value) hr fun _ node _ hd =>
      hd.updateElement node _

theorem beginComponent {spec : ComponentSpec} {ctx : Context} {id : ComponentId}
    (h : RenderM.beginComponent spec ctx s = .done id t) : Upholds c value ms s t := by
  obtain ⟨hrenderer, hshared⟩ := beginComponent_cases h
  refine quiet (by rw [hrenderer, Renderer.target_enqueue]) ?_
  rcases hshared with hshared | ⟨type, key, label, hshared⟩ <;> rw [hshared] <;>
    exact List.prefix_rfl

theorem trail : Trail (fun sh sh' => sh.log.toList <+: sh'.log.toList) true (Upholds c value) where
  toCourse := isCourse
  plain _ _ := quiet rfl List.prefix_rfl
  aside h := quiet rfl h
  keys s change := quiet (s.renderer.target_changeKeys change) List.prefix_rfl
  logger s logger := quiet (s.renderer.target_setLogger logger) List.prefix_rfl
  marked s := quiet (congrArg Pass.target s.renderer.pass_markRendered) List.prefix_rfl
  popped _ h := h
  call hw _ h := callTarget _ _ _ _ hw (.inl ⟨_, h⟩)
  blob node markup _ := updateRecord _ node _
  server {ctx s t} name key parameters hw _ ht := by
    have hopened : Upholds c value [] s t :=
      Traces.openServerElement isCourse (fun call _ => callTarget call) (changeRenderer fun r => by
        rw [Renderer.pass_markRendered]) (fun node _ ctx s t _ ht => by
        obtain rfl := Outcome.EndsIn.done_iff.1 ht
        exact updateRecord s node _) name key parameters ctx s t hw ht
    exact hopened
  skippedServer _ _ _ _ := quiet rfl List.prefix_rfl
  toDefault _ ht := by
    rcases toDefault_of_endsIn ht with rfl | rfl
    · exact quiet rfl List.prefix_rfl
    · exact quiet (Renderer.target_handBackLogger _) List.prefix_rfl
  requeue index _ ht := by
    rcases requeue_of_endsIn ht with ⟨-, rfl⟩ | ⟨id, -, rfl⟩
    · exact quiet rfl List.prefix_rfl
    · exact quiet (Renderer.target_enqueue _ id) List.prefix_rfl
  probed _ _ := quiet rfl List.prefix_rfl
  component {spec ctx s id u ms v} hw _ hbegin h := by
    have hbegun : Upholds c value [⟨.component spec, ctx, s⟩] s u := beginComponent hbegin
    have hcomponent := isCourse.append hbegun h
    refine ⟨hcomponent, fun {root t} ht => ?_⟩
    have hattached : Upholds c value [] v t := attach id root ctx v t hw (.inl ⟨_, ht⟩)
    exact isCourse.append hcomponent hattached

theorem escorts : Escorts (fun _ => True) true (Upholds c value) :=
  .of_path side_log trail.path (fun _ _ => quiet rfl List.prefix_rfl)
    (fun _ => quiet rfl List.prefix_rfl) attach
    fun id ctx s t _ ht => by
      obtain rfl := Outcome.EndsIn.done_iff.1 ht
      exact quiet rfl List.prefix_rfl

theorem flushQueue : Traces true (Upholds c value) RenderM.flushQueue .none := by
  refine .flushQueue isCourse (changeRenderer fun _ => rfl) fun id ctx s t _ ht => ?_
  obtain rfl := Outcome.EndsIn.done_iff.1 ht
  exact quiet rfl (side_log.synchronize s.shared id)

end Upholds

section Writing

variable {ctx : Context} {s : RenderState KeyedDom} {f g : Frame} {below : List Frame} {c : NodeId}

theorem comment_run (hs : s.renderer.layers = []) (hf : s.renderer.pass.target.frames = f :: below)
    (value : String) : RenderM.comment value ctx s = (do
      emit (s.renderer.pass.target.commentCall f value)
      emit .skipNode) ctx s := by
  have htarget : s.renderer.target? = some s.renderer.pass.target := by simp [Renderer.target?, hs]
  have hcurrent : RenderTarget.current? s.renderer.pass.target = some f.parent := by
    show KeyedDom.current? _ = _
    rw [KeyedDom.current?, hf]
    rfl
  have hdocument : RenderTarget.document s.renderer.pass.target =
      s.renderer.pass.target.document := rfl
  simp only [RenderM.comment, RenderM.current?, bind_run, renderer, htarget, Option.bind_some,
    hcurrent, pure_run, targetDocument, KeyedDom.commentCall, hdocument]
  cases (s.renderer.pass.target.document.nextSibling? f.parent).filter
    s.renderer.pass.target.document.isComment <;> rfl

theorem comment_done (ctx : Context) (hs : s.renderer.layers = [])
    (hf : s.renderer.pass.target.frames = f :: below) {value : String} {node : Option NodeId}
    {t : KeyedDom} (ht : KeyedDom.apply (s.renderer.pass.target.commentCall f value)
      s.renderer.pass.target = .ok (node, t)) :
    ∃ u, RenderM.comment value ctx s = .done () u ∧ u.renderer.pass.target = t.skipped ∧
      u.renderer.layers = [] := by
  obtain ⟨v, hwrite, hredraws, hv⟩ := emit_run ctx _ hs ht
  have hlayers : v.renderer.layers = [] := hredraws.layers.trans hs
  have hskip : RenderTarget.apply .skipNode v.renderer.pass.target = .ok (none, t.skipped) := by
    rw [hv]
    rfl
  obtain ⟨u, hskipped, hredraws', hu⟩ := emit_run ctx .skipNode hlayers hskip
  refine ⟨u, ?_, hu, hredraws'.layers.trans hlayers⟩
  simp only [comment_run hs hf, bind_run, hwrite, hskipped]

theorem Moment.LeadsTo.comment {m : Moment KeyedDom} {value : String} {u : RenderState KeyedDom}
    (hm : m.question = .instruction (.comment value))
    (hu : RenderM.comment value m.context m.state = .done () u) : m.LeadsTo u := by
  refine ⟨.comment value, hm, .inl ⟨(), ?_⟩⟩
  simp only [stepInstruction, Instruction.perform, bind_run, hu, pure_run]
  rfl

/-- The comment that a step writes in shelter, and its node. -/
def Moment.written? (m : Moment KeyedDom) : Option (String × NodeId) :=
  match m.question, m.state.renderer.layers with
  | .instruction (.comment value), [] =>
    m.state.renderer.pass.target.shelter?.map fun c => (value, c)
  | _, _ => none

theorem Moment.of_written? {m : Moment KeyedDom} {value : String}
    (h : m.written? = some (value, c)) : m.question = .instruction (.comment value) ∧
      m.state.renderer.layers = [] ∧ m.state.renderer.pass.target.shelter? = some c := by
  unfold Moment.written? at h
  split at h
  · next hquestion hlayers =>
    obtain ⟨c, hc, heq⟩ := Option.map_eq_some_iff.1 h
    cases heq
    exact ⟨hquestion, hlayers, hc⟩
  · cases h

theorem Moment.leadsTo_of_written? {m : Moment KeyedDom} {value : String}
    (h : m.written? = some (value, c)) (hs : m.state.renderer.pass.target.Sound) :
    ∃ u, m.LeadsTo u ∧ u.renderer.pass.target.Passed c ∧
      u.renderer.pass.target.document.content? c = some (.comment value) := by
  obtain ⟨hquestion, hlayers, hc⟩ := Moment.of_written? h
  obtain ⟨f, below, node, t, hf, ht, hpassed, hcontent⟩ := hs.written hc value
  obtain ⟨u, hu, htarget, -⟩ := comment_done m.context hlayers hf ht
  exact ⟨u, .comment hquestion hu, htarget ▸ hpassed, htarget ▸ hcontent⟩

/-- A new comment beside a node at the pointer is erased if its element is closed next. -/
theorem comment_erased (hs : s.renderer.layers = []) (hsound : s.renderer.pass.target.Sound)
    (hf : s.renderer.pass.target.frames = f :: g :: below)
    (hnone : (s.renderer.pass.target.document.nextSibling? f.parent).filter
      s.renderer.pass.target.document.isComment = none)
    (hpointer : s.renderer.pass.target.pointer?.isSome) (value : String) :
    ∃ u, RenderM.comment value ctx s = .done () u ∧
      u.renderer.pass.target.document.content? s.renderer.pass.target.document.size =
        some (.comment value) ∧
      ∃ node v, RenderM.closeElement ctx u = .done node v ∧
        v.renderer.pass.target.document.isLive s.renderer.pass.target.document.size = false := by
  obtain ⟨t, ht, happends⟩ := hsound.appends hf value
  have hcall : KeyedDom.apply (s.renderer.pass.target.commentCall f value)
      s.renderer.pass.target = .ok (some s.renderer.pass.target.document.size, t) := by
    rw [KeyedDom.commentCall, hnone]
    exact ht
  obtain ⟨u, hu, htarget, hlayers⟩ := comment_done ctx hs hf hcall
  obtain ⟨t', hclose, hlost⟩ := happends.lost hf hpointer
  have happly : RenderTarget.apply .closeElement u.renderer.pass.target =
      .ok (some f.parent, t') := htarget ▸ hclose
  obtain ⟨log, hrun⟩ := callTarget_run ctx happly
  refine ⟨u, hu, ?_, some f.parent, _, (emit?_of_layers hlayers _).trans hrun, hlost⟩
  rw [htarget, KeyedDom.document_skipped, Document.content?, happends.node]
  rfl

end Writing

end KeyedRender
