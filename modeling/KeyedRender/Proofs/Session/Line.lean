import KeyedRender.Proofs.Session.Identity
import KeyedRender.Proofs.Target.Line

/-!
# Elements from pass to pass

Passes that open elements below a root at one composite key find the elements of the pass before
again by their keys, in whatever order they come and whatever is rendered inside. Nodes are only
created for new keys, and the nodes of keys that are left out are erased.
-/
namespace KeyedRender

open KeyedDom (Inside Laid Retains Takes)

variable {L : Layout} {root : NodeId} {done left : List Opening} {ctx : Context}
  {s u : RenderState KeyedDom}

structure RenderState.Lined (L : Layout) (root : NodeId) (done left : List Opening)
    (s : RenderState KeyedDom) : Prop where
  layers : s.renderer.layers.length = 0
  line : s.renderer.pass.target.Lined L root done left

theorem Opening.triple_content (o : Opening) (hbody : o.body.Tidy (fun _ => True) 0) (L : Layout)
    (d : Document) (f : Frame) (c : Nat) :
    Triple ⟨fun _ => True, 0, fun _ _ => True⟩
      (fun (t : KeyedDom) _ => (t.Inside d o.node ∧ Stacked o.node [f] 0 t.frames) ∧
        (o.body.Silent → t.created = c))
      (o.content L)
      fun _ (t : KeyedDom) _ => t.Inside d o.node ∧ t.frames = [f] ∧
        (o.body.Silent → t.created = c) := by
  have hrun : Triple ⟨fun _ => True, 0, fun _ _ => True⟩
      (fun (t : KeyedDom) _ => (t.Inside d o.node ∧ Stacked o.node [f] 0 t.frames) ∧
        (o.body.Silent → t.created = c)) (o.body.run KeyedDom)
      fun _ (t : KeyedDom) _ => (t.Inside d o.node ∧ Stacked o.node [f] 0 t.frames) ∧
        (o.body.Silent → t.created = c) := by
    by_cases hsilent : o.body.Silent
    · exact hsilent.triple.failing (x := ⟨fun _ => True, 0, fun _ _ => True⟩) fun _ _ _ => trivial
    · have htidy := (KeyedDom.stable_inside d o.node [f]).tidy (k := 0) (L := fun _ => True)
        (fun _ hi => hi) hbody fun _ hd => hd
      rw [within_zero] at htidy
      refine ((htidy.failing (x := ⟨fun _ => True, 0, fun _ _ => True⟩) fun _ _ _ => trivial).pre
        fun _ _ hp => hp.1).post fun _ _ _ hp => ⟨hp, fun h => absurd h hsilent⟩
  refine .bind (Quiet.answer _ _).triple fun _ => .bind hrun fun _ => .bind
    (.emit? (Q := fun _ t _ => t.Inside d o.node ∧ t.frames = [f] ∧ (o.body.Silent → t.created = c))
      (fun _ t g hp => ?_) fun hn => absurd rfl hn) fun closed => (Quiet.answer _ _).triple
  obtain ⟨⟨hinside, hstacked⟩, hcreated⟩ := hp
  obtain ⟨node, t', ht', hinside', hframes⟩ :=
    (KeyedDom.confined_inside d o.node).leave hinside hstacked
  refine .of_ok ht' ⟨hinside', hframes, fun hsilent => ?_⟩
  rw [← hcreated hsilent, KeyedDom.created_closeElement ht']

namespace RenderState.Lined

theorem opening (h : s.Lined L root done left) {o : Opening} {t t' : RenderState KeyedDom}
    (hbody : o.body.Tidy (fun _ => True) 0) (hkey : s.renderer.currentKey = L.stack)
    (hopen : RenderM.openElement (L.name o.key) o.key ctx s = .done (some o.node) t)
    (hcontent : o.content L ctx t = .done () t') (hdone : ∀ p ∈ done, p.key ≠ o.key) :
    t'.Lined L root (done ++ [o]) (without o.key left) ∧
      s.renderer.pass.target.document.size ≤ t'.renderer.pass.target.document.size ∧
      Takes left s.renderer.pass.target.document.size o ∧
      (o.body.Silent → t'.renderer.pass.target.created =
        s.renderer.pass.target.created + fresh o.key left) := by
  obtain ⟨n, target, htarget, hplaces⟩ := h.line.openElement o.key o.body
  have happly : RenderTarget.apply
      (.openElement (L.name o.key) (Key.encode (.text o.key) ++ s.renderer.currentKey))
      s.renderer.pass.target = .ok (some n, target) := by
    rw [hkey]
    exact htarget
  obtain ⟨log, hlog⟩ := RenderM.callTarget_run ctx happly
  rw [RenderM.openElement_run h.layers, hlog] at hopen
  cases hopen
  have hp := hplaces.places
  have hframes : target.frames = [⟨o.node, 0⟩, ⟨root, done.length + 1⟩] := by
    simpa using hp.frames
  have hinside : target.Inside target.document o.node :=
    ⟨hp.sound, hp.mode.trans h.line.mode, .refl _ _⟩
  obtain ⟨hlayers, hclosed, hrest, hcreated⟩ := (o.triple_content hbody L target.document
    ⟨root, done.length + 1⟩ target.created).done
    (s := ⟨s.renderer.setTarget target, { s.shared with log := log }⟩) h.layers
    ⟨⟨hinside, [], 0, hframes, rfl⟩, fun _ => rfl⟩ hcontent
  refine ⟨⟨hlayers, h.line.closed hplaces hdone hclosed hrest⟩, ?_, hplaces.takes,
    fun hsilent => ?_⟩
  · exact Nat.le_trans hp.size hclosed.surrounds.size
  · exact (hcreated hsilent).trans hplaces.created

theorem lays (h : s.Lined L root done left) {script : Script} {openings : List Opening}
    (hs : script.Lays L ctx s openings u)
    (hdistinct : ((done ++ openings).map Opening.key).Nodup) :
    ∃ left', u.Lined L root (done ++ openings) left' ∧
      Retains left openings left' s.renderer.pass.target u.renderer.pass.target := by
  induction hs generalizing done left with
  | done => exact ⟨left, by simpa using h, .nil left _⟩
  | @silent i next s t u openings hi hstep _ ih =>
    have hsilent : Triple ⟨fun _ => True, 0, fun t _ => t = s.renderer.pass.target⟩
        (fun t _ => t = s.renderer.pass.target)
        (do RenderM.answer (.instruction i) (← i.perform))
        fun _ t _ => t = s.renderer.pass.target :=
      .bind hi.triple fun a => (Quiet.answer _ a).triple
    obtain ⟨hlayers, htarget⟩ := hsilent.done h.layers rfl hstep
    have hlined : t.Lined L root done left := ⟨hlayers, htarget ▸ h.line⟩
    rw [← htarget]
    exact ih hlined hdistinct
  | @opening o next s t t' u openings hbody hkey hopen hcontent _ ih =>
    have hnodup := hdistinct
    rw [List.map_append, List.map_cons, List.nodup_middle, ← List.map_append] at hnodup
    have hother : ∀ p ∈ done ++ openings, p.key ≠ o.key := fun p hp heq =>
      (List.nodup_cons.1 hnodup).1 (List.mem_map.2 ⟨p, hp, heq⟩)
    obtain ⟨hlined, hsize, htakes, hcreated⟩ := h.opening hbody hkey hopen hcontent fun p hp =>
      hother p (List.mem_append_left _ hp)
    obtain ⟨left', hend, hretains⟩ := ih hlined (by simpa using hdistinct)
    exact ⟨left', by simpa using hend,
      .cons hsize htakes hcreated (fun p hp => hother p (List.mem_append_right _ hp)) hretains⟩

end RenderState.Lined

namespace Session

/-- A pass that succeeds, and whose script opens elements of the layout under different keys. -/
def Lays (L : Layout) (root : NodeId) (s : Session KeyedDom) (openings : List Opening)
    (s' : Session KeyedDom) : Prop :=
  (openings.map Opening.key).Nodup ∧
  ∃ settings rule logger script report t u,
    RenderM.begun root .inner rule logger (pure ()) (context settings) s.initial = .done () t ∧
    script.Lays L (context settings) t openings u ∧
    s.pass settings (.bracketed root .inner rule logger script) = .ok (report, s')

inductive LayRun (L : Layout) (root : NodeId) (s₀ : Session KeyedDom) :
    List (List Opening) → Session KeyedDom → Prop
  | start : LayRun L root s₀ [] s₀
  | pass {past : List (List Opening)} {openings : List Opening} {s s' : Session KeyedDom} :
      LayRun L root s₀ past s → s.Lays L root openings s' → LayRun L root s₀ (openings :: past) s'

variable {s₀ s s' : Session KeyedDom} {openings last : List Opening} {past : List (List Opening)}

theorem Lays.laid (h : s.target.Laid L root last) (hs : s.Lays L root openings s') :
    s'.target.Laid L root openings ∧
      ∃ left, Retains last openings left s.target s'.target ∧
        ∀ p ∈ left, s'.target.document.isLive p.node = false := by
  obtain ⟨hdistinct, settings, rule, logger, script, report, t, u, hbegin, hlays, hpass⟩ := hs
  have hbegun : Triple ⟨fun _ => True, 0, fun _ _ => True⟩ (fun t _ => t = s.target)
      (RenderM.begun root .inner rule logger (pure ()))
      fun _ (t : KeyedDom) _ => t.Lined L root [] last ∧ t.document = s.target.document ∧
        t.created = s.target.created := by
    refine .begun (fun t g hp => ?_) (.pure fun _ _ hp => hp)
    subst hp
    obtain ⟨t', ht', hlined⟩ := h.begins rule
    exact .of_ok_map ht' hlined
  obtain ⟨hlayers, hline, hdocument, hcreated⟩ := hbegun.done rfl rfl hbegin
  have hlined : t.Lined L root [] last := ⟨hlayers, hline⟩
  obtain ⟨left, hend, hretains⟩ := hlined.lays hlays hdistinct
  obtain ⟨target, htarget, hlaid, hsame, hdead⟩ := hend.line.ends
  have hretains : Retains last openings left s.target target :=
    hretains.congr ⟨by rw [hdocument], hcreated.symm⟩ hsame
  exact ends_of_pass (O := fun t' _ => t'.Laid L root openings ∧
    ∃ left, Retains last openings left s.target t' ∧
      ∀ p ∈ left, t'.document.isLive p.node = false) hbegin (Script.run_of_lays hlays) hend.layers
    (.of_ok htarget ⟨hlaid, left, hretains, hdead⟩) (fun _ _ _ hp _ => hp) hpass

theorem LayRun.laid (hrun : LayRun L root s₀ past s) (h₀ : s₀.target.Laid L root []) :
    s.target.Laid L root (past.headD []) := by
  induction hrun with
  | start => exact h₀
  | pass _ hpass ih => exact (hpass.laid ih).1

/-- Passes below an element that was empty open elements of one layout, each pass under different
keys. Whatever the orders of the keys and whatever is rendered inside, an element has the node of
the pass before if its key was opened there, and else a new node; the nodes of keys that are left
out are gone. After a pass the children of the element are the nodes that were opened, in their
order. If nothing is rendered inside, as many nodes are created as there are new keys. -/
theorem nodes_of_run (h₀ : Reached Proper s₀)
    (hroot : (s₀.target.document.element? root).isSome)
    (hempty : s₀.target.document.children root = []) (hrun : LayRun L root s₀ past s)
    (hpass : s.Lays L root openings s') :
    (∀ o ∈ openings, (∀ p ∈ past.headD [], o.node = p.node ↔ o.key = p.key) ∧
      ((∀ p ∈ past.headD [], o.key ≠ p.key) → s.target.document.size ≤ o.node)) ∧
    (∀ p ∈ past.headD [], (∀ o ∈ openings, o.key ≠ p.key) →
      s'.target.document.isLive p.node = false) ∧
    s'.target.document.children root = openings.map Opening.node ∧
    ((∀ o ∈ openings, o.body.Silent) → s'.target.created = s.target.created +
      openings.countP fun o => o.key ∉ (past.headD []).map Opening.key) := by
  have hstart : s₀.target.Laid L root [] :=
    ⟨h₀.atRest.1.tree, hroot, by simpa using hempty, by simp, by simp⟩
  have hlast := hrun.laid hstart
  obtain ⟨hlaid, left, hretains, hdead⟩ := hpass.laid hlast
  refine ⟨fun o ho => ⟨fun p hp => ⟨fun hnode => ?key, fun hkey => ?node⟩, fun hnew => ?new⟩,
    fun p hp hnone => hdead p (hretains.remains p hp hnone), hlaid.children, hretains.created⟩
  case key =>
    have htakes := hretains.takes o ho
    by_cases hold : ∃ w ∈ past.headD [], w.key = o.key
    · obtain ⟨w, hw, hkey⟩ := hold
      rw [← hkey, hlast.node_inj hw hp ((htakes.same w hw hkey).symm.trans hnode)]
    · -- A new node is none of those that were there.
      have hnew := htakes.new fun w hw heq => hold ⟨w, hw, heq⟩
      rw [hnode] at hnew
      exact absurd (hlast.lt_size hp) (Nat.not_lt.2 hnew)
  case node => exact (hretains.takes o ho).same p hp hkey.symm
  case new => exact (hretains.takes o ho).new fun p hp => Ne.symm (hnew p hp)

def elements (L : Layout) : List (String × Script) → Script
  | [] => .done
  | (key, body) :: rest =>
    .step (.openElement (L.name key) key) (body.seq (.step .closeElement (elements L rest)))

def lay? (L : Layout) (ctx : Context) :
    List (String × Script) → RenderState KeyedDom → Option (List Opening × RenderState KeyedDom)
  | [], s => some ([], s)
  | (key, body) :: rest, s =>
    if s.renderer.currentKey = L.stack then
      match RenderM.openElement (L.name key) key ctx s with
      | .done (some node) t =>
        match (Opening.mk key body node).content L ctx t with
        | .done () t' => (lay? L ctx rest t').map fun (openings, u) =>
          (⟨key, body, node⟩ :: openings, u)
        | _ => none
      | _ => none
    else none

theorem lays_of_lay? {list : List (String × Script)} {ctx : Context} {s u : RenderState KeyedDom}
    (h : lay? L ctx list s = some (openings, u))
    (hbodies : ∀ p ∈ list, p.2.Tidy (fun _ => True) 0) :
    (elements L list).Lays L ctx s openings u ∧ openings.map (fun o => (o.key, o.body)) = list := by
  induction list generalizing s openings with
  | nil =>
    cases h
    exact ⟨.done, rfl⟩
  | cons p rest ih =>
    obtain ⟨key, body⟩ := p
    obtain ⟨hbody, hrest⟩ := List.forall_mem_cons.1 hbodies
    unfold lay? at h
    split at h
    · next hkey =>
      split at h
      · next node t hopen =>
        split at h
        · next t' hcontent =>
          obtain ⟨⟨openings, u'⟩, hnext, heq⟩ := Option.map_eq_some_iff.1 h
          cases heq
          obtain ⟨hlays, hlist⟩ := ih hnext hrest
          exact ⟨.opening hbody hkey hopen hcontent hlays, by rw [List.map_cons, hlist]⟩
        · cases h
      · cases h
    · cases h

def layPass? (L : Layout) (list : List (String × Script)) (s : Session KeyedDom) :
    Option (List Opening × Session KeyedDom) :=
  let settings : Settings := ⟨"", .null, loggedText, true⟩
  match RenderM.begun 0 .inner .keyed none (pure ()) (context settings) s.initial with
  | .done () t =>
    match lay? L (context settings) list t,
        s.pass settings (.bracketed 0 .inner .keyed none (elements L list)) with
    | some (openings, _), .ok (_, s') => some (openings, s')
    | _, _ => none
  | _ => none

theorem lays_of_layPass? {list : List (String × Script)}
    (h : layPass? L list s = some (openings, s'))
    (hbodies : ∀ p ∈ list, p.2.Tidy (fun _ => True) 0) (hdistinct : (list.map Prod.fst).Nodup) :
    s.Lays L 0 openings s' ∧ openings.map (fun o => (o.key, o.body)) = list := by
  unfold layPass? at h
  dsimp only at h
  split at h
  · next t hbegin =>
    split at h
    · next openings' u report s'' hlays hpass =>
      cases h
      obtain ⟨hlays, hlist⟩ := lays_of_lay? hlays hbodies
      refine ⟨⟨?_, _, _, _, _, report, t, u, hbegin, hlays, hpass⟩, hlist⟩
      rwa [← hlist, List.map_map] at hdistinct
    · cases h
  · cases h

theorem nodes_of_run_two_passes : ∃ first second s₁ s₂,
    LayRun ⟨"", fun _ => "div"⟩ 0 (start .new) [first] s₁ ∧
    s₁.Lays ⟨"", fun _ => "div"⟩ 0 second s₂ ∧
    first.map (fun o => (o.key, o.node)) = [("a", 1), ("b", 3)] ∧
    second.map (fun o => (o.key, o.node)) = [("c", 4), ("a", 1)] ∧
    (∀ o ∈ second, ∀ p ∈ first, o.node = p.node ↔ o.key = p.key) ∧
    s₂.target.document.children 0 = second.map Opening.node ∧
    s₂.target.created = s₁.target.created + 1 := by
  have hboth : ((layPass? ⟨"", fun _ => "div"⟩ [("a", .step (.text "x") .done), ("b", .done)]
      (start .new)).bind fun (first, s) =>
      (layPass? ⟨"", fun _ => "div"⟩ [("c", .done), ("a", .done)] s).map fun (second, _) =>
        (first.map fun o => (o.key, o.node), second.map fun o => (o.key, o.node))) =
      some ([("a", 1), ("b", 3)], [("c", 4), ("a", 1)]) := by decide +kernel
  obtain ⟨⟨first, s₁⟩, hfirst, hrest⟩ := Option.bind_eq_some_iff.1 hboth
  obtain ⟨⟨second, s₂⟩, hsecond, heq⟩ := Option.map_eq_some_iff.1 hrest
  obtain ⟨hnodes, hnodes'⟩ := Prod.mk.inj heq
  have htext : (Script.step (.text "x") .done).Tidy (fun _ => True) 0 :=
    .flat trivial rfl (fun _ => trivial) .done
  obtain ⟨hlays, hlist⟩ := lays_of_layPass? hfirst (by simpa using ⟨htext, .done⟩) (by decide)
  obtain ⟨hlays', hlist'⟩ := lays_of_layPass? hsecond (by simpa using .done) (by decide)
  have hrun : LayRun ⟨"", fun _ => "div"⟩ 0 (start .new) [first] s₁ := .pass .start hlays
  obtain ⟨hopened, -, hchildren, hcreated⟩ := nodes_of_run .start rfl rfl hrun hlays'
  have hsilent : ∀ o ∈ second, o.body.Silent := by
    intro o ho
    have hmem : (o.key, o.body) ∈ [("c", Script.done), ("a", .done)] := by
      rw [← hlist']
      exact List.mem_map_of_mem ho
    simp only [List.mem_cons, Prod.mk.injEq, List.not_mem_nil, or_false] at hmem
    rcases hmem with ⟨-, hbody⟩ | ⟨-, hbody⟩ <;> exact hbody ▸ trivial
  have hcount : second.countP (fun o => o.key ∉ first.map Opening.key) = 1 := by
    have hmap : second.countP (fun o => o.key ∉ first.map Opening.key) =
        (second.map fun o => (o.key, o.node)).countP fun p =>
          p.1 ∉ (first.map fun o => (o.key, o.node)).map Prod.fst := by
      rw [List.countP_map, List.map_map]
      rfl
    rw [hmap, hnodes, hnodes']
    decide
  exact ⟨first, second, s₁, s₂, hrun, hlays', hnodes, hnodes', fun o ho => (hopened o ho).1,
    hchildren, hcount ▸ hcreated hsilent⟩

end Session

end KeyedRender
