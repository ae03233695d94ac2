import KeyedRender.Document.Lemmas
import Mathlib.Order.Basic
import Mathlib.Tactic.Push

/-!
# Erasing nodes with everything below them

`Below` follows the child lists. Where these only point to later nodes, `dropAll` erases exactly
the given nodes and what is below them, and leaves every other node as it was.
-/
namespace KeyedRender.Document

variable {d d' : Document}

/-- A node and everything listed below it. -/
inductive Below (d : Document) (top : NodeId) : NodeId → Prop
  | self : Below d top top
  | child {id c : NodeId} : Below d top id → c ∈ d.children id → Below d top c

def PointsLater (d : Document) : Prop := ∀ id c : Nat, c ∈ d.children id → id < c

theorem children_eq_of_node? {id : NodeId} (h : d'.node? id = d.node? id) :
    d'.children id = d.children id := by
  simp only [children, element?, content?, h]

theorem children_of_node?_eq_none {id : NodeId} (h : d.node? id = none) : d.children id = [] := by
  simp [children, element?, content?, h]

theorem isLive_of_mem_children {id c : NodeId} (h : c ∈ d.children id) : d.isLive id = true := by
  cases hn : d.node? id with
  | none => rw [children_of_node?_eq_none hn] at h; cases h
  | some n => simp [isLive, hn]

theorem Below.trans {a b c : NodeId} (hab : d.Below a b) (hbc : d.Below b c) : d.Below a c := by
  induction hbc with
  | self => exact hab
  | child _ hc ih => exact .child ih hc

theorem Below.head {id c n : NodeId} (hc : c ∈ d.children id) (h : d.Below c n) : d.Below id n :=
  (Below.child .self hc).trans h

theorem Below.eq_or_child {id n : NodeId} (h : d.Below id n) :
    n = id ∨ ∃ c ∈ d.children id, d.Below c n := by
  induction h with
  | self => exact .inl rfl
  | @child m k _ hk ih =>
    rcases ih with rfl | ⟨c, hc, hm⟩
    · exact .inr ⟨k, hk, .self⟩
    · exact .inr ⟨c, hc, .child hm hk⟩

theorem Below.le (hd : d.PointsLater) {id n : Nat} (h : d.Below id n) : id ≤ n := by
  induction h with
  | self => exact Nat.le_refl _
  | child _ hc ih => exact Nat.le_trans ih (Nat.le_of_lt (hd _ _ hc))

theorem Below.congr {top n : NodeId} (h : d.Below top n)
    (same : ∀ id, d.Below top id → d'.children id = d.children id) : d'.Below top n := by
  induction h with
  | self => exact .self
  | child hb hc ih => exact .child ih (by rw [same _ hb]; exact hc)

theorem Below.mono {top n : NodeId} (h : d'.Below top n)
    (fewer : ∀ id, d'.children id ⊆ d.children id) : d.Below top n := by
  induction h with
  | self => exact .self
  | child _ hc ih => exact .child ih (fewer _ hc)

theorem below_of_node?_eq_none {id n : NodeId} (h : d.node? id = none) (hb : d.Below id n) :
    n = id := by
  rcases hb.eq_or_child with rfl | ⟨c, hc, -⟩
  · rfl
  · rw [children_of_node?_eq_none h] at hc; cases hc

theorem children_erase (d : Document) (id other : NodeId) :
    (d.erase id).children other = if other = id then [] else d.children other := by
  split
  · next h => exact children_of_node?_eq_none (by rw [node?_erase, if_pos h])
  · next h => exact children_eq_of_node? (by rw [node?_erase, if_neg h])

theorem below_erase_iff (hd : d.PointsLater) {id c n : Nat} (hc : id < c) :
    (d.erase id).Below c n ↔ d.Below c n := by
  constructor
  · intro h
    refine h.mono fun m => ?_
    rw [children_erase]
    split <;> simp
  · intro h
    refine h.congr fun m hm => ?_
    rw [children_erase, if_neg (Nat.ne_of_gt (Nat.lt_of_lt_of_le hc (hm.le hd)))]

def BelowAny (d : Document) (tops : List NodeId) (n : NodeId) : Prop := ∃ top ∈ tops, d.Below top n

theorem belowAny_cons {top n : NodeId} {tops : List NodeId} :
    d.BelowAny (top :: tops) n ↔ d.Below top n ∨ d.BelowAny tops n := by
  simp [BelowAny]

def ErasesTo (d : Document) (tops : List NodeId) (d' : Document) : Prop :=
  d'.size = d.size ∧
    ∀ n, (d.BelowAny tops n → d'.node? n = none) ∧ (¬ d.BelowAny tops n → d'.node? n = d.node? n)

theorem ErasesTo.children_subset {tops : List NodeId} (h : d.ErasesTo tops d') (id : NodeId) :
    d'.children id ⊆ d.children id := by
  by_cases hb : d.BelowAny tops id
  · rw [children_of_node?_eq_none ((h.2 id).1 hb)]
    exact List.nil_subset _
  · rw [children_eq_of_node? ((h.2 id).2 hb)]
    exact List.Subset.refl _

theorem ErasesTo.pointsLater {tops : List NodeId} (h : d.ErasesTo tops d') (hd : d.PointsLater) :
    d'.PointsLater := fun id c hc => hd id c (h.children_subset id hc)

theorem ErasesTo.cons {top : NodeId} {tops : List NodeId} {d₁ d₂ : Document}
    (h₁ : d.ErasesTo [top] d₁) (h₂ : d₁.ErasesTo tops d₂) : d.ErasesTo (top :: tops) d₂ := by
  have single : ∀ n, d.BelowAny [top] n ↔ d.Below top n := by simp [BelowAny]
  refine ⟨h₂.1.trans h₁.1, fun n => ⟨fun hn => ?_, fun hn => ?_⟩⟩
  · by_cases ht : d.Below top n
    · by_cases hs : d₁.BelowAny tops n
      · exact (h₂.2 n).1 hs
      · rw [(h₂.2 n).2 hs]
        exact (h₁.2 n).1 ((single n).2 ht)
    · -- the way down to `n` avoids what the first node took along
      obtain ⟨s, hs, hsn⟩ := (belowAny_cons.1 hn).resolve_left ht
      refine (h₂.2 n).1 ⟨s, hs, ?_⟩
      clear hn
      induction hsn with
      | self => exact .self
      | @child m k hm hk ih =>
        have hnot : ¬ d.Below top m := fun hb => ht (.child hb hk)
        refine .child (ih hnot) ?_
        rw [children_eq_of_node? ((h₁.2 m).2 (mt (single m).1 hnot))]
        exact hk
  · have hno : ¬ d.Below top n ∧ ¬ d.BelowAny tops n := by simpa [belowAny_cons] using hn
    have hkeep : ¬ d₁.BelowAny tops n := by
      rintro ⟨s, hs, hsn⟩
      exact hno.2 ⟨s, hs, hsn.mono h₁.children_subset⟩
    rw [(h₂.2 n).2 hkeep]
    exact (h₁.2 n).2 (mt (single n).1 hno.1)

theorem ErasesTo.of_dead {id : NodeId} (h : d.node? id = none) : d.ErasesTo [id] d := by
  refine ⟨rfl, fun n => ⟨fun hn => ?_, fun _ => rfl⟩⟩
  obtain ⟨s, hs, hsn⟩ := hn
  rw [List.mem_singleton] at hs
  subst hs
  rwa [below_of_node?_eq_none h hsn]

theorem ErasesTo.of_children (hd : d.PointsLater) {id : NodeId}
    (h : (d.erase id).ErasesTo (d.children id) d') : d.ErasesTo [id] d' := by
  have below_iff : ∀ n, d.BelowAny [id] n ↔ n = id ∨ (d.erase id).BelowAny (d.children id) n := by
    intro n
    constructor
    · rintro ⟨s, hs, hsn⟩
      rw [List.mem_singleton] at hs
      subst hs
      refine hsn.eq_or_child.imp_right ?_
      rintro ⟨c, hc, hcn⟩
      exact ⟨c, hc, (below_erase_iff hd (hd _ _ hc)).2 hcn⟩
    · rintro (rfl | ⟨c, hc, hcn⟩)
      · exact ⟨n, List.mem_singleton_self n, .self⟩
      · exact ⟨id, List.mem_singleton_self id, .head hc ((below_erase_iff hd (hd _ _ hc)).1 hcn)⟩
  refine ⟨h.1.trans (size_erase d id), fun n => ⟨fun hn => ?_, fun hn => ?_⟩⟩
  · by_cases hc : (d.erase id).BelowAny (d.children id) n
    · exact (h.2 n).1 hc
    · have heq : n = id := ((below_iff n).1 hn).resolve_right hc
      rw [(h.2 n).2 hc, node?_erase, if_pos heq]
  · have hno := mt (below_iff n).2 hn
    push Not at hno
    rw [(h.2 n).2 hno.2, node?_erase, if_neg hno.1]

/-- The fuel counts down while the nodes only get later, so it lasts to the bottom. -/
theorem dropWithin_erasesTo (fuel : Nat) {ids : List NodeId} (hd : d.PointsLater)
    (hf : ∀ id ∈ ids, d.size < fuel + id) : d.ErasesTo ids (dropWithin fuel ids d) := by
  induction fuel generalizing ids d with
  | zero =>
    refine ⟨rfl, fun n => ⟨?_, fun _ => rfl⟩⟩
    rintro ⟨s, hs, hsn⟩
    have hsize : d.size ≤ s := by have := hf s hs; omega
    -- Without fuel only nodes past the end of the table are left.
    have heq := below_of_node?_eq_none (node?_of_size_le hsize) hsn
    exact heq ▸ node?_of_size_le hsize
  | succ fuel ih =>
    induction ids generalizing d with
    | nil => exact ⟨rfl, fun n => ⟨fun h => by simp [BelowAny] at h, fun _ => rfl⟩⟩
    | cons id rest ihs =>
      simp only [dropWithin, List.foldl_cons]
      have first : d.ErasesTo [id]
          (if d.isLive id then dropWithin fuel (d.children id) (d.erase id) else d) := by
        split
        · refine .of_children hd (ih (fun m c hc => ?_) fun c hc => ?_)
          · rw [children_erase] at hc
            split at hc
            · cases hc
            · exact hd m c hc
          · have := hf id (List.mem_cons_self ..)
            have hlater := hd id c hc
            rw [size_erase]
            omega
        · next h => exact .of_dead (by simpa [isLive] using h)
      refine first.cons (ihs (first.pointsLater hd) fun s hs => ?_)
      rw [first.1]
      exact hf s (List.mem_cons_of_mem _ hs)

theorem dropAll_erasesTo (hd : d.PointsLater) (ids : List NodeId) : d.ErasesTo ids (d.dropAll ids) :=
  dropWithin_erasesTo _ hd fun _ _ => by omega

end KeyedRender.Document
