import KeyedRender.Proofs.Script.Lays
import KeyedRender.Proofs.Target.Around
import KeyedRender.Proofs.Target.Placing

/-!
# A line of elements

The children of a root are elements of one layout, told apart by the keys they were opened with.
While a pass goes on, the elements that were opened again come first and those left over follow.
Opening under the key of an element that is left puts that element behind the opened ones, and any
other key makes a new one. At the end of the pass, what is left over is erased.
-/
namespace KeyedRender

def Layout.elementKey (L : Layout) (key : String) : String := Key.encode (.text key) ++ L.stack

def Opening.Labeled (L : Layout) (d : Document) (o : Opening) : Prop :=
  ∃ e, d.element? o.node = some e ∧ e.name = L.name o.key ∧ e.key = L.elementKey o.key

def without (key : String) (l : List Opening) : List Opening := l.filter fun o => o.key ≠ key

theorem mem_without {key : String} {l : List Opening} {o : Opening} :
    o ∈ without key l ↔ o ∈ l ∧ o.key ≠ key := by
  simp [without]

theorem without_eq_self {key : String} {l : List Opening} (h : ∀ o ∈ l, o.key ≠ key) :
    without key l = l := List.filter_eq_self.2 fun o ho => by simpa using h o ho

def fresh (key : String) (l : List Opening) : Nat := if key ∈ l.map Opening.key then 0 else 1

namespace KeyedDom

theorem created_dropUnvisited {t t' : KeyedDom} {f : Frame} (h : t.dropUnvisited f = .ok t') :
    t'.created = t.created := by
  unfold dropUnvisited at h
  cases hlisted : t.listedChildren f.parent with
  | error f => simp [hlisted, bind, Except.bind] at h
  | ok children =>
    simp only [hlisted, bind, Except.bind, pure, Except.pure] at h
    split at h
    · cases h
    · cases h
      rfl

theorem created_closeElement {t : KeyedDom} {r : Option NodeId × KeyedDom}
    (h : t.closeElement = .ok r) : r.2.created = t.created := by
  unfold closeElement at h
  split at h
  · next f g below hf =>
    cases hdrop : t.dropUnvisited f with
    | error f => simp [hdrop, bind, Except.bind] at h
    | ok t' =>
      simp only [hdrop, bind, Except.bind, pure, Except.pure, Except.ok.injEq] at h
      have hcreated := created_dropUnvisited hdrop
      rw [← h]
      exact hcreated
  · cases h
    rfl

/-- Between two elements, those that were opened come first and then those that are left. -/
structure Lined (L : Layout) (root : NodeId) (done left : List Opening) (t : KeyedDom) : Prop where
  sound : t.Sound
  mode : t.mode = .inner
  frames : t.frames = [⟨root, done.length⟩]
  children : t.document.children root = (done ++ left).map Opening.node
  labeled : ∀ o ∈ done ++ left, o.Labeled L t.document
  distinct : ((done ++ left).map Opening.key).Nodup

/-- The node that an opening gets: the one that is left for its key, or a new one. -/
structure Takes (left : List Opening) (size : Nat) (o : Opening) : Prop where
  same : ∀ p ∈ left, p.key = o.key → o.node = p.node
  new : (∀ p ∈ left, p.key ≠ o.key) → size ≤ o.node

namespace Lined

variable {L : Layout} {root : NodeId} {done left : List Opening} {t t' u : KeyedDom} {o : Opening}

theorem mem_children (h : t.Lined L root done left) {p : Opening} (hp : p ∈ done ++ left) :
    p.node ∈ t.document.children root := by
  rw [h.children]
  exact List.mem_map_of_mem hp

theorem node_ne_root (h : t.Lined L root done left) {p : Opening} (hp : p ∈ done ++ left) :
    p.node ≠ root := Nat.ne_of_gt (h.sound.tree.lt (h.mem_children hp))

theorem lt_size (h : t.Lined L root done left) {p : Opening} (hp : p ∈ done ++ left) :
    p.node < t.document.size := by
  obtain ⟨e, he, -⟩ := h.labeled p hp
  exact Document.lt_size_of_element? he

theorem accepts_iff (h : t.Lined L root done left) {p : Opening} (hp : p ∈ done ++ left)
    (key : String) :
    t.accepts (L.name key) (L.elementKey key) p.node = true ↔ p.key = key := by
  obtain ⟨e, he, hname, hkey⟩ := h.labeled p hp
  simp only [accepts, he, hname, hkey, Layout.elementKey, Key.MatchRule.accepts_iff]
  refine ⟨fun hlabels => hlabels.2.symm, ?_⟩
  rintro rfl
  exact ⟨rfl, rfl⟩

theorem rejects (h : t.Lined L root done left) {l : List Opening} (hl : l ⊆ left) {key : String}
    (hne : ∀ p ∈ l, p.key ≠ key) :
    ∀ id ∈ l.map Opening.node, t.accepts (L.name key) (L.elementKey key) id = false := by
  intro id hid
  obtain ⟨p, hp, rfl⟩ := List.mem_map.1 hid
  have hmem : p ∈ done ++ left := List.mem_append_right _ (hl hp)
  exact Bool.eq_false_iff.2 fun ha => hne p hp ((h.accepts_iff hmem key).1 ha)

structure Places (L : Layout) (root : NodeId) (done left : List Opening) (o : Opening)
    (t t' : KeyedDom) : Prop where
  places : t.Places root (done.map Opening.node) o.node
    ((without o.key left).map Opening.node) [] t'
  takes : Takes left t.document.size o
  labeled : o.Labeled L t'.document
  created : t'.created = t.created + fresh o.key left

theorem openElement (h : t.Lined L root done left) (key : String) (body : Script) :
    ∃ n t', t.openElement (L.name key) (L.elementKey key) = .ok (some n, t') ∧
      Places L root done left ⟨key, body, n⟩ t t' := by
  have hframes : t.frames = [⟨root, (done.map Opening.node).length⟩] := by simpa using h.frames
  by_cases hkey : ∃ w ∈ left, w.key = key
  · obtain ⟨w, hw, rfl⟩ := hkey
    obtain ⟨before, after, hleft⟩ := List.append_of_mem hw
    have hnodup : ((before ++ w :: after).map Opening.key).Nodup := by
      rw [← hleft]
      exact h.distinct.sublist ((List.sublist_append_right done left).map _)
    obtain ⟨hother, hfilter⟩ := filter_ne_append_cons hnodup
    have hwithout : without w.key left = before ++ after := by rw [hleft, without, hfilter]
    have hmem : w ∈ done ++ left := List.mem_append_right _ hw
    have hchildren : t.document.children root =
        done.map Opening.node ++ (before.map Opening.node ++ w.node :: after.map Opening.node) := by
      rw [h.children, hleft]
      simp
    have hrejects := h.rejects (l := before) (by simp [hleft]) fun p hp =>
      hother p (List.mem_append_left _ hp)
    obtain ⟨t', hopen, hplaces, hcreated⟩ := h.sound.places_found hframes hchildren
      ((h.accepts_iff hmem w.key).2 rfl) hrejects
    refine ⟨w.node, t', hopen, ?places, ⟨fun p hp hpkey => ?same, fun hnone => ?new⟩, ?labeled,
      ?created⟩
    case places => rwa [hwithout, List.map_append]
    case same => rw [List.inj_on_of_nodup_map (hleft ▸ hnodup) hp hw hpkey]
    case new => exact absurd rfl (hnone w hw)
    case labeled =>
      obtain ⟨e, he, hlabels⟩ := h.labeled w hmem
      exact ⟨e, (hplaces.elements _ (h.lt_size hmem) (h.node_ne_root hmem)).trans he, hlabels⟩
    case created => rw [fresh, if_pos (List.mem_map_of_mem hw), hcreated, Nat.add_zero]
  · have hnone : ∀ p ∈ left, p.key ≠ key := fun p hp heq => hkey ⟨p, hp, heq⟩
    have hchildren : t.document.children root =
        done.map Opening.node ++ left.map Opening.node := by rw [h.children, List.map_append]
    obtain ⟨t', hopen, hplaces, hcreated, hnew⟩ := h.sound.places_new hframes hchildren
      (h.rejects (List.Subset.refl left) hnone)
    refine ⟨_, t', hopen, ?places, ⟨fun p hp hpkey => ?same, fun _ => Nat.le_refl _⟩, ?labeled,
      ?created⟩
    case places => rwa [without_eq_self hnone]
    case same => exact absurd hpkey (hnone p hp)
    case labeled => exact ⟨_, hnew, rfl, rfl⟩
    case created =>
      have hfresh : key ∉ left.map Opening.key := by simpa using hnone
      rw [fresh, if_neg hfresh, hcreated]

theorem closed (h : t.Lined L root done left) (hp : Places L root done left o t t')
    (hdone : ∀ p ∈ done, p.key ≠ o.key) (hu : u.Inside t'.document o.node)
    (hframes : u.frames = [⟨root, done.length + 1⟩]) :
    u.Lined L root (done ++ [o]) (without o.key left) := by
  have hplaces := hp.places
  have htree := hplaces.sound.tree
  have hmem : o.node ∈ t'.document.children root := by simp [hplaces.children]
  have hsub : (done ++ without o.key left).Sublist (done ++ left) :=
    .append_left List.filter_sublist done
  have hother : ∀ p ∈ done ++ without o.key left, p.key ≠ o.key := fun p hp =>
    (List.mem_append.1 hp).elim (hdone p) fun hp => (mem_without.1 hp).2
  have happend : done ++ [o] ++ without o.key left = done ++ o :: without o.key left := by simp
  refine ⟨hu.sound, hu.mode, by simpa using hframes, ?children, fun p hpmem => ?labeled, ?distinct⟩
  case children =>
    obtain ⟨e, he, -⟩ := Document.element?_of_mem_children hmem
    have hout : t'.document.Below o.node root → root = o.node := fun hb =>
      absurd hb (not_below_of_lt htree (htree.lt hmem))
    obtain ⟨e', he', -, -, hsame⟩ := hu.surrounds.around root e hout he
    rw [Document.children_of_element? he', hsame (Nat.ne_of_lt (htree.lt hmem)),
      ← Document.children_of_element? he, hplaces.children]
    simp
  case labeled =>
    have hlabeled : p.Labeled L t'.document ∧
        (t'.document.Below o.node p.node → p.node = o.node) := by
      rw [happend, List.mem_append, List.mem_cons] at hpmem
      by_cases hpo : p = o
      · subst hpo
        exact ⟨hp.labeled, fun _ => rfl⟩
      · have hrest : p ∈ done ++ without o.key left :=
          List.mem_append.2 (hpmem.imp_right fun hm => hm.resolve_left hpo)
        have hold : p ∈ done ++ left := hsub.subset hrest
        obtain ⟨e, he, hlabels⟩ := h.labeled p hold
        have hkept := hplaces.elements _ (h.lt_size hold) (h.node_ne_root hold)
        have hpchild : p.node ∈ t'.document.children root := by
          rw [hplaces.children, List.mem_append, List.mem_cons]
          rcases List.mem_append.1 hrest with hm | hm
          · exact .inl (List.mem_map_of_mem hm)
          · exact .inr (.inr (List.mem_map_of_mem hm))
        -- Two children of the root are siblings, and nothing is below both.
        refine ⟨⟨e, hkept.trans he, hlabels⟩, fun hb => ?_⟩
        by_contra hne
        exact htree.not_below_siblings hpchild hmem hne .self hb
    obtain ⟨⟨e, he, hname, hkey⟩, hout⟩ := hlabeled
    obtain ⟨e', he', hname', hkey', -⟩ := hu.surrounds.around p.node e hout he
    exact ⟨e', he', hname'.trans hname, hkey'.trans hkey⟩
  case distinct =>
    rw [happend, List.map_append, List.map_cons, List.nodup_middle, ← List.map_append]
    refine List.nodup_cons.2 ⟨fun hm => ?_, h.distinct.sublist (hsub.map _)⟩
    obtain ⟨p, hp, heq⟩ := List.mem_map.1 hm
    exact hother p hp heq

end Lined

/-- What some openings keep and make, of the elements that are left: each takes the one that is left
for its key, those of no key stay left, and if nothing is rendered inside, only the elements of new
keys are created. -/
structure Retains (left openings left' : List Opening) (t t' : KeyedDom) : Prop where
  size : t.document.size ≤ t'.document.size
  takes : ∀ o ∈ openings, Takes left t.document.size o
  remains : ∀ p ∈ left, (∀ o ∈ openings, o.key ≠ p.key) → p ∈ left'
  created : (∀ o ∈ openings, o.body.Silent) →
    t'.created = t.created + openings.countP fun o => o.key ∉ left.map Opening.key

theorem Retains.nil (left : List Opening) (t : KeyedDom) : Retains left [] left t t :=
  ⟨Nat.le_refl _, by simp, fun _ hp _ => hp, fun _ => rfl⟩

theorem Retains.congr {left openings left' : List Opening} {t t' u u' : KeyedDom}
    (h : Retains left openings left' t t')
    (hbegin : u.document.size = t.document.size ∧ u.created = t.created)
    (hend : u'.document.size = t'.document.size ∧ u'.created = t'.created) :
    Retains left openings left' u u' := by
  obtain ⟨hsize, hcreated⟩ := hbegin
  obtain ⟨hsize', hcreated'⟩ := hend
  exact ⟨by rw [hsize, hsize']; exact h.size, fun o ho => hsize ▸ h.takes o ho, h.remains,
    fun hsilent => by rw [hcreated', hcreated]; exact h.created hsilent⟩

theorem Retains.cons {left openings left' : List Opening} {o : Opening} {t u t' : KeyedDom}
    (hsize : t.document.size ≤ u.document.size) (ho : Takes left t.document.size o)
    (hcreated : o.body.Silent → u.created = t.created + fresh o.key left)
    (hkey : ∀ p ∈ openings, p.key ≠ o.key)
    (h : Retains (without o.key left) openings left' u t') :
    Retains left (o :: openings) left' t t' := by
  have hleft : ∀ p ∈ openings, p.key ∈ (without o.key left).map Opening.key ↔
      p.key ∈ left.map Opening.key := by
    intro p hp
    simp only [List.mem_map, mem_without]
    refine ⟨fun ⟨w, hw, heq⟩ => ⟨w, hw.1, heq⟩, fun ⟨w, hw, heq⟩ => ⟨w, ⟨hw, ?_⟩, heq⟩⟩
    rw [heq]
    exact hkey p hp
  refine ⟨Nat.le_trans hsize h.size, List.forall_mem_cons.2 ⟨ho, fun p hp => ?takes⟩,
    fun p hp hnone => ?remains, fun hsilent => ?created⟩
  case takes =>
    have htakes := h.takes p hp
    refine ⟨fun w hw heq => htakes.same w (mem_without.2 ⟨hw, ?_⟩) heq, fun hnew => ?_⟩
    · rw [heq]
      exact hkey p hp
    · exact Nat.le_trans hsize (htakes.new fun w hw => hnew w (mem_without.1 hw).1)
  case remains =>
    obtain ⟨hfirst, hrest⟩ := List.forall_mem_cons.1 hnone
    exact h.remains p (mem_without.2 ⟨hp, Ne.symm hfirst⟩) hrest
  case created =>
    obtain ⟨hfirst, hrest⟩ := List.forall_mem_cons.1 hsilent
    have hcount : openings.countP (fun p => p.key ∉ (without o.key left).map Opening.key) =
        openings.countP fun p => p.key ∉ left.map Opening.key :=
      List.countP_congr fun p hp => by simp only [hleft p hp]
    rw [h.created hrest, hcreated hfirst, hcount, List.countP_cons, fresh]
    by_cases hmem : o.key ∈ left.map Opening.key
    · simp [hmem]
    · simp only [hmem, if_false, not_false_eq_true, decide_true, if_true]
      omega

structure Laid (L : Layout) (root : NodeId) (openings : List Opening) (t : KeyedDom) : Prop where
  tree : t.document.IsTree
  element : (t.document.element? root).isSome
  children : t.document.children root = openings.map Opening.node
  labeled : ∀ o ∈ openings, o.Labeled L t.document
  distinct : (openings.map Opening.key).Nodup

section Passes

variable {L : Layout} {root : NodeId} {openings done left : List Opening} {t : KeyedDom}

theorem Laid.lt_size (h : t.Laid L root openings) {p : Opening} (hp : p ∈ openings) :
    p.node < t.document.size := by
  obtain ⟨e, he, -⟩ := h.labeled p hp
  exact Document.lt_size_of_element? he

theorem Laid.node_inj (h : t.Laid L root openings) {p q : Opening} (hp : p ∈ openings)
    (hq : q ∈ openings) (heq : p.node = q.node) : p = q := by
  have hnodup := Document.TreeBut.nodup h.tree root
  rw [h.children] at hnodup
  exact List.inj_on_of_nodup_map hnodup hp hq heq

theorem Laid.begins (h : t.Laid L root openings) (rule : Key.MatchRule) :
    ∃ t', t.beginPatch root .inner rule = .ok t' ∧ t'.Lined L root [] openings ∧
      t'.document = t.document ∧ t'.created = t.created :=
  ⟨t.begun root rule, t.beginPatch_inner root rule,
    ⟨sound_begun h.tree h.element rule, rfl, rfl, h.children, h.labeled, h.distinct⟩, rfl, rfl⟩

theorem Lined.ends (h : t.Lined L root done left) :
    ∃ t', t.endPatch = .ok t' ∧ t'.Laid L root done ∧
      (t'.document.size = t.document.size ∧ t'.created = t.created) ∧
      ∀ p ∈ left, t'.document.isLive p.node = false := by
  obtain ⟨e, he, hindex⟩ := h.sound.current h.frames
  have hchildren := h.children
  rw [Document.children_of_element? he] at hchildren
  have htake : e.children.take done.length = done.map Opening.node := by simp [hchildren]
  have hdrop : e.children.drop done.length = left.map Opening.node := by simp [hchildren]
  have hrevises := Document.Revises.pruned h.sound.tree he hindex
  refine ⟨_, endPatch_eq h.sound h.frames h.mode, ⟨isTree_pruned h.sound.tree he, ?element,
    ?children, fun p hp => ?labeled, ?distinct⟩, ⟨?size, rfl⟩, fun p hp => ?dead⟩
  case size =>
    exact (pruned_erasesTo h.sound.tree he).1.trans (Document.size_updateElement ..)
  case element =>
    rw [document_setDocument, element?_pruned h.sound.tree he]
    rfl
  case children => exact (children_pruned h.sound.tree he).trans htake
  case labeled =>
    obtain ⟨ep, hep, hlabels⟩ := h.labeled p (List.mem_append_left _ hp)
    have hmem : p.node ∈ (t.document.children root).take done.length := by
      rw [Document.children_of_element? he, htake]
      exact List.mem_map_of_mem hp
    have hsame := Document.element?_eq_of_node? (hrevises.visited _ hmem _ .self)
    exact ⟨ep, hsame.trans hep, hlabels⟩
  case distinct =>
    exact h.distinct.sublist ((List.sublist_append_left done left).map _)
  case dead =>
    have hmem : p.node ∈ (t.document.children root).drop done.length := by
      rw [Document.children_of_element? he, hdrop]
      exact List.mem_map_of_mem hp
    have herased := ((pruned_erasesTo h.sound.tree he).2 p.node).1 ⟨p.node, hmem, .self⟩
    rw [document_setDocument, Document.isLive, herased]
    rfl

end Passes

end KeyedDom

end KeyedRender
