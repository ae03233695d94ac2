import KeyedRender.Proofs.Target.Ordered
import KeyedRender.Proofs.Target.Passed
import Mathlib.Data.List.Perm.Subperm

/-!
# Nodes that a pass visits

Opening an element and writing a text visit a node: one that was not visited, or a new one. The
nodes that were visited are known by two things. None of them is below a child that was not visited,
and so no later call visits one of them again, or erases it. And among the children of one parent
they stand in the order of the visits, because calls only move nodes that were not visited.
-/
namespace KeyedRender

open Document (SameParents)

namespace KeyedDom

variable {t t' : KeyedDom} {f : Frame} {below : List Frame} {id : NodeId} {visits : List NodeId}

section Lists

variable {α : Type} {l a b : List α}

theorem sublist_left (h : l.Sublist (a ++ b)) (hb : ∀ x ∈ l, x ∉ b) : l.Sublist a := by
  obtain ⟨l₁, l₂, rfl, ha, hl₂⟩ := List.sublist_append_iff.1 h
  have hnil : l₂ = [] := List.eq_nil_iff_forall_not_mem.2 fun x hx =>
    hb x (List.mem_append_right _ hx) (hl₂.subset hx)
  rwa [hnil, List.append_nil]

theorem sublist_of_subset [DecidableEq α] (hb : b.Nodup) (hl : l.Sublist b) (ha : a.Sublist b)
    (h : l ⊆ a) : l.Sublist a := by
  have hfilter : ∀ {c : List α}, c ⊆ a → c.filter (· ∈ a) = c := fun hc =>
    List.filter_eq_self.2 fun x hx => by simpa using hc hx
  have hall : a.Sublist (b.filter (· ∈ a)) := by
    have hmapped := ha.filter (· ∈ a)
    rwa [hfilter (List.Subset.refl a)] at hmapped
  have heq : a = b.filter (· ∈ a) := by
    refine hall.eq_of_length_le (List.subperm_of_subset (hb.filter _) fun x hx => ?_).length_le
    simpa using (List.mem_filter.1 hx).2
  rw [heq]
  have hmapped := hl.filter (· ∈ a)
  rwa [hfilter h] at hmapped

end Lists

/-- What is known of the nodes that were visited, in the order of the visits. -/
structure HasVisited (t : KeyedDom) (visits : List NodeId) : Prop where
  ordered : t.Ordered
  around : ∀ p ∈ t.openElements, t.Clear p
  clear : ∀ id ∈ visits, t.Clear id
  nodup : visits.Nodup
  listed : ∀ p, (visits.filter fun id => t.document.parent? id = some p).Sublist
    (t.document.children p)

theorem HasVisited.forget (h : t.HasVisited visits) : t.HasVisited [] :=
  ⟨h.ordered, h.around, by simp, .nil, by simp⟩

theorem filter_parent_sublist (h : t.document.SameParents t'.document)
    (hold : ∀ id ∈ visits, id < t.document.size) (p : NodeId) :
    (visits.filter fun id => t'.document.parent? id = some p).Sublist
      (visits.filter fun id => t.document.parent? id = some p) := by
  have htwice : (visits.filter fun id => t'.document.parent? id = some p) =
      (visits.filter fun id => t.document.parent? id = some p).filter
        fun id => t'.document.parent? id = some p := by
    rw [List.filter_filter]
    refine List.filter_congr fun id hid => ?_
    have hparent := h.parent (p := p) (hold id hid)
    simpa using hparent
  rw [htwice]
  exact List.filter_sublist

theorem HasVisited.fewer (h : t.HasVisited visits) (ht : t'.Ordered)
    (hsame : t.document.SameParents t'.document)
    (hfewer : ∀ p, (t'.document.children p).Sublist (t.document.children p))
    (hopen : t'.openElements ⊆ t.openElements)
    (hrest : ∀ child, t'.Unvisited child → t.Unvisited child) : t'.HasVisited visits := by
  have hgains : t.document.Gains t'.document :=
    ⟨hsame.size, fun p c hc => .inl ((hfewer p).subset hc)⟩
  have hclear : ∀ {c}, t.Clear c → t'.Clear c := fun hc =>
    hc.change ht.tree hgains fun child hchild => .inr ⟨child, hrest child hchild, .self⟩
  refine ⟨ht, fun p hp => hclear (h.around p (hopen hp)), fun id hid => hclear (h.clear id hid),
    h.nodup, fun p => ?_⟩
  have hlisted := (filter_parent_sublist hsame (fun id hid => (h.clear id hid).old) p).trans
    (h.listed p)
  have hnodup := Document.TreeBut.nodup h.ordered.tree p
  refine sublist_of_subset hnodup hlisted (hfewer p) fun id hid => ?_
  exact ht.tree.mem_children (of_decide_eq_true (List.mem_filter.1 hid).2)

structure Puts (d : Document) (f : Frame) (id : NodeId) (d' : Document) : Prop where
  same : d.SameParents d'
  origin : id ∈ (d.children f.parent).drop f.index ∨ id = d.size
  index : f.index ≤ (d.children f.parent).length
  row : ∃ rest ⊆ (d.children f.parent).drop f.index,
    d'.children f.parent = (d.children f.parent).take f.index ++ id :: rest
  others : ∀ p, p ≠ f.parent → d'.children p = d.children p
  live : ∀ c, d.isLive c = true → d'.isLive c = true

namespace Puts

variable {d d' : Document} (h : Puts d f id d')
include h

theorem mem_children : id ∈ d'.children f.parent := by
  obtain ⟨rest, -, hrow⟩ := h.row
  rw [hrow]
  exact List.mem_append_cons_self

theorem gains : d.Gains d' := by
  refine ⟨h.same.size, fun p c hc => ?_⟩
  by_cases hp : p = f.parent
  · subst hp
    obtain ⟨rest, hrest, hrow⟩ := h.row
    rw [hrow] at hc
    rcases List.mem_append.1 hc with hc | hc
    · exact .inl (List.mem_of_mem_take hc)
    · rcases List.mem_cons.1 hc with rfl | hc
      · exact h.origin.imp List.mem_of_mem_drop fun hnew => Nat.le_of_eq hnew.symm
      · exact .inl (List.mem_of_mem_drop (hrest hc))
  · rw [h.others p hp] at hc
    exact .inl hc

end Puts

theorem Ordered.ne_of_mem (h : t.Ordered) (hf : t.frames = f :: below) {g : Frame}
    (hg : g ∈ below) : g.parent ≠ f.parent := by
  have hyounger := h.younger
  rw [openElements, hf, List.map_cons] at hyounger
  exact Nat.ne_of_lt ((List.pairwise_cons.1 hyounger).1 _ (List.mem_map_of_mem hg))

theorem Clear.child {p : NodeId} (h : t.Clear p) (htree : t.document.IsTree)
    (hid : id ∈ t.document.children p) (hvisited : ¬ t.Unvisited id) : t.Clear id := by
  obtain ⟨n, hn⟩ := Document.isLive_iff.1 (htree.isLive_child hid)
  refine ⟨Document.lt_size_of_node? hn, fun child hchild hb => ?_⟩
  by_cases hne : id = child
  · exact hvisited (hne ▸ hchild)
  · exact h.apart child hchild (htree.below_parent hb hne (htree.parent hid))

section Placed

variable (h : t.HasVisited visits) (hf : t.frames = f :: below)
  (hp : Puts t.document f id t'.document) (ht : t'.Ordered)
  {front : List Frame} (hfront : ∀ g ∈ front, g = ⟨id, 0⟩)
  (hframes : t'.frames = front ++ ⟨f.parent, f.index + 1⟩ :: below)
include h hf hp ht hfront hframes

theorem Puts.unvisited {child : NodeId} (hchild : t'.Unvisited child) :
    t.document.size ≤ child ∨ ∃ top, t.Unvisited top ∧ t'.document.Below top child := by
  obtain ⟨g, hg, hchild⟩ := hchild
  rw [hframes] at hg
  rcases List.mem_append.1 hg with hg | hg
  · obtain rfl := hfront g hg
    have hchild := List.mem_of_mem_drop hchild
    rcases hp.origin with hold | rfl
    · exact .inr ⟨id, ⟨f, by simp [hf], hold⟩, .child .self hchild⟩
    · exact .inl (Nat.le_of_lt (ht.tree.lt hchild))
  · refine .inr ⟨child, ?_, .self⟩
    rcases List.mem_cons.1 hg with rfl | hg
    · obtain ⟨rest, hrest, hrow⟩ := hp.row
      rw [hrow, drop_succ_take_append hp.index] at hchild
      exact ⟨f, by simp [hf], hrest hchild⟩
    · rw [hp.others _ (h.ordered.ne_of_mem hf hg)] at hchild
      exact ⟨g, by simp [hf, hg], hchild⟩

theorem Puts.visited : ¬ t'.Unvisited id := by
  rintro ⟨g, hg, hid⟩
  have hparent := Document.TreeBut.parent_unique ht.tree (List.mem_of_mem_drop hid) hp.mem_children
  rw [hframes] at hg
  rcases List.mem_append.1 hg with hg | hg
  · obtain rfl := hfront g hg
    exact absurd (ht.tree.lt (List.mem_of_mem_drop hid)) (Nat.lt_irrefl _)
  · rcases List.mem_cons.1 hg with rfl | hg
    · obtain ⟨rest, -, hrow⟩ := hp.row
      have hnodup := Document.TreeBut.nodup ht.tree f.parent
      rw [hrow] at hnodup hid
      rw [drop_succ_take_append hp.index] at hid
      exact (List.nodup_cons.1 (List.nodup_append.1 hnodup).2.1).1 hid
    · exact h.ordered.ne_of_mem hf hg hparent

theorem HasVisited.put : t'.HasVisited (visits ++ [id]) := by
  have hunvisited : ∀ child, t'.Unvisited child → _ := fun child hchild =>
    hp.unvisited h hf ht hfront hframes hchild
  have hclear : ∀ {c}, t.Clear c → t'.Clear c := fun hc => hc.change ht.tree hp.gains hunvisited
  have hparent : t'.Clear f.parent :=
    hclear (h.around _ (by simp [openElements, hf]))
  have hid : t'.Clear id :=
    hparent.child ht.tree hp.mem_children (hp.visited h hf ht hfront hframes)
  -- A node that is clear is no child left to be visited. The one that is placed was such a child,
  -- or it is new.
  have hrest : ∀ c, t.Clear c → c ∉ (t.document.children f.parent).drop f.index := fun c hc hmem =>
    hc.apart c ⟨f, by simp [hf], hmem⟩ .self
  have hnew : id ∉ visits := fun hmem => by
    have hc := h.clear id hmem
    rcases hp.origin with hold | rfl
    · exact hrest id hc hold
    · exact absurd hc.old (Nat.lt_irrefl _)
  refine ⟨ht, fun p hpo => ?around, fun c hc => ?clear, ?nodup, fun p => ?listed⟩
  case around =>
    rw [openElements, hframes, List.map_append, List.map_cons] at hpo
    rcases List.mem_append.1 hpo with hpo | hpo
    · obtain ⟨g, hg, rfl⟩ := List.mem_map.1 hpo
      rwa [hfront g hg]
    · refine hclear (h.around p ?_)
      rwa [openElements, hf, List.map_cons]
  case clear =>
    rcases List.mem_append.1 hc with hc | hc
    · exact hclear (h.clear c hc)
    · obtain rfl := List.mem_singleton.1 hc
      exact hid
  case nodup =>
    refine List.nodup_append.2 ⟨h.nodup, List.nodup_singleton id, fun a ha b hb hab => hnew ?_⟩
    obtain rfl := List.mem_singleton.1 hb
    exact hab ▸ ha
  case listed =>
    have hlisted := (filter_parent_sublist hp.same (fun c hc => (h.clear c hc).old) p).trans
      (h.listed p)
    have hidp := ht.tree.parent hp.mem_children
    rw [List.filter_append]
    by_cases hpf : p = f.parent
    · subst hpf
      obtain ⟨rest, -, hrow⟩ := hp.row
      have hbefore : (visits.filter fun c => t'.document.parent? c = some f.parent).Sublist
          ((t.document.children f.parent).take f.index) := by
        refine sublist_left (b := (t.document.children f.parent).drop f.index) ?_ fun c hc =>
          hrest c (h.clear c (List.mem_filter.1 hc).1)
        rwa [List.take_append_drop]
      have hone : [id].filter (fun c => t'.document.parent? c = some f.parent) = [id] := by
        simp [hidp]
      rw [hrow, hone]
      exact hbefore.append (List.cons_sublist_cons.2 (List.nil_sublist rest))
    · have hone : [id].filter (fun c => t'.document.parent? c = some p) = [] := by
        simp [hidp, Ne.symm hpf]
      rw [hp.others p hpf, hone, List.append_nil]
      exact hlisted

end Placed

end KeyedDom

end KeyedRender
