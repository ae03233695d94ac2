import KeyedRender.Error
import KeyedRender.Proofs.Document.Records

/-!
# Chronicles of a document

An arrival is a time at which an element with a server's key is opened. The parameters that are
recorded of a node are those that the first arrival supplied that found it with content, and what
each arrival comes to follows from the arrivals before it.
-/
namespace KeyedRender

/-- The node that was opened, whether it had content, and the text of the parameters if they are
supplied; and what was recorded of the node at first, what was answered, and what is recorded
then. -/
structure Arrival where
  node : NodeId
  hasContent : Bool
  supplied : Option String
  before : Option String
  result : Except RenderError Bool
  after : Option String

namespace Arrival

def offered (a : Arrival) : Option String := if a.hasContent then a.supplied else none

/-- Without content nothing is checked. With content the parameters must be those recorded, if
there are both. -/
def Answers (a : Arrival) : Prop :=
  if a.hasContent then
    match a.supplied, a.before with
    | some new, some old =>
      if new = old then a.result = .ok false
      else ∃ element, a.result = .error (.skipParametersChanged old new element)
    | _, _ => a.result = .ok false
  else a.result = .ok true

def firstOffered (as : List Arrival) (node : NodeId) : Option String :=
  as.findSome? fun a => if a.node = node then a.offered else none

theorem firstOffered_append (as bs : List Arrival) (node : NodeId) :
    firstOffered (as ++ bs) node = (firstOffered as node).or (firstOffered bs node) :=
  List.findSome?_append

theorem firstOffered_of_forall_ne {as : List Arrival} {node : NodeId}
    (h : ∀ a ∈ as, a.node ≠ node) : firstOffered as node = none := by
  refine List.findSome?_eq_none_iff.2 fun a ha => if_neg (h a ha)

end Arrival

def Document.skipParameters? (d : Document) (id : NodeId) : Option String :=
  (d.record? id).bind NodeRecord.skipParameters

open Arrival (firstOffered)

/-- What arrivals leave behind, from one document to a later one. Every one of them reaches a node
that is there, and what it finds recorded is what was recorded at the start or else was first
offered since. -/
structure Document.Chronicle (d : Document) (as : List Arrival) (d' : Document) : Prop where
  size : d.size ≤ d'.size
  live : ∀ {id}, id < d.size → d'.isLive id = true → d.isLive id = true
  recorded : ∀ {id}, d'.isLive id = true →
    d'.skipParameters? id = (d.skipParameters? id).or (firstOffered as id)
  reached : ∀ a ∈ as, a.node < d'.size ∧ (a.node < d.size → d.isLive a.node = true)
  arrivals : ∀ {before a after}, as = before ++ a :: after →
    a.before = (d.skipParameters? a.node).or (firstOffered before a.node) ∧
    a.after = a.before.or a.offered ∧ a.Answers

namespace Document

variable {d d' d'' : Document} {as bs : List Arrival}

theorem skipParameters?_of_content? {id : NodeId} :
    d.skipParameters? id = ((d.content? id).bind Content.record?).bind NodeRecord.skipParameters := by
  unfold skipParameters? record? element?
  cases d.content? id with
  | none => rfl
  | some c => cases c <;> rfl

theorem skipParameters?_of_size_le {id : NodeId} (h : d.size ≤ id) : d.skipParameters? id = none := by
  rw [skipParameters?_of_content?, content?, node?_of_size_le h]
  rfl

theorem content?_of_isLive {id : NodeId} (h : d.isLive id = true) :
    ∃ c, d.content? id = some c := by
  obtain ⟨n, hn⟩ := Option.isSome_iff_exists.1 h
  exact ⟨n.content, by rw [content?, hn]; rfl⟩

theorem isLive_of_content? {id : NodeId} {c : Content} (h : d.content? id = some c) :
    d.isLive id = true := by
  obtain ⟨n, hn, -⟩ := Option.map_eq_some_iff.1 h
  rw [isLive, hn]
  rfl

theorem skipParameters?_of_keeps (h : d.Keeps NodeRecord.skipParameters d') {id : NodeId}
    (hid : d'.isLive id = true) : d'.skipParameters? id = d.skipParameters? id := by
  obtain ⟨c', hc'⟩ := content?_of_isLive hid
  rcases h.content hc' with ⟨hnew, hempty⟩ | ⟨c, hc, heq⟩
  · rw [skipParameters?_of_size_le hnew, skipParameters?_of_content?, hc', Option.bind_some]
    cases hr : c'.record? with
    | none => rfl
    | some r => exact hempty r hr
  · rw [skipParameters?_of_content?, skipParameters?_of_content?, hc', hc, Option.bind_some,
      Option.bind_some]
    generalize c.record? = r at heq
    generalize c'.record? = r' at heq
    cases r <;> cases r' <;> simp_all

theorem isLive_of_keeps {β : Type} {part : NodeRecord → β} (h : d.Keeps part d') {id : NodeId}
    (hid : id < d.size) (hlive : d'.isLive id = true) : d.isLive id = true := by
  obtain ⟨c', hc'⟩ := content?_of_isLive hlive
  rcases h.content hc' with ⟨hnew, -⟩ | ⟨c, hc, -⟩
  · exact absurd hid (Nat.not_lt.2 hnew)
  · exact isLive_of_content? hc

namespace Chronicle

theorem of_keeps (h : d.Keeps NodeRecord.skipParameters d') : d.Chronicle [] d' where
  size := h.size
  live := isLive_of_keeps h
  recorded hid := by
    rw [skipParameters?_of_keeps h hid]
    exact (Option.or_none).symm
  reached a ha := by cases ha
  arrivals h := by simp at h

theorem refl (d : Document) : d.Chronicle [] d := of_keeps (.refl d)

theorem history (h : d.Chronicle as d') {id : NodeId} (hid : id < d'.size → d'.isLive id = true) :
    d'.skipParameters? id = (d.skipParameters? id).or (firstOffered as id) := by
  by_cases hlt : id < d'.size
  · exact h.recorded (hid hlt)
  · have hle := Nat.not_lt.1 hlt
    rw [skipParameters?_of_size_le hle, skipParameters?_of_size_le (Nat.le_trans h.size hle)]
    rw [Arrival.firstOffered_of_forall_ne fun a ha (heq : a.node = id) =>
      hlt (heq ▸ (h.reached a ha).1)]
    rfl

theorem trans (h : d.Chronicle as d') (h' : d'.Chronicle bs d'') : d.Chronicle (as ++ bs) d'' where
  size := Nat.le_trans h.size h'.size
  live hid hlive := h.live hid (h'.live (Nat.lt_of_lt_of_le hid h.size) hlive)
  recorded {id} hlive := by
    rw [h'.recorded hlive, h.history fun hid => h'.live hid hlive, Arrival.firstOffered_append,
      Option.or_assoc]
  reached a ha := by
    rcases List.mem_append.1 ha with ha | ha
    · exact ⟨Nat.lt_of_lt_of_le (h.reached a ha).1 h'.size, (h.reached a ha).2⟩
    · obtain ⟨hlt, hlive⟩ := h'.reached a ha
      exact ⟨hlt, fun hid => h.live hid (hlive (Nat.lt_of_lt_of_le hid h.size))⟩
  arrivals {before a after} heq := by
    rcases List.append_eq_append_iff.1 heq with ⟨middle, rfl, hbs⟩ | ⟨middle, has, hafter⟩
    · have ha := h'.arrivals hbs
      rw [h.history (h'.reached a (hbs ▸ by simp)).2] at ha
      rw [Arrival.firstOffered_append, ← Option.or_assoc]
      exact ha
    · cases middle with
      | nil =>
        have hbs : bs = [] ++ a :: after := hafter.symm
        have ha := h'.arrivals hbs
        rw [h.history (h'.reached a (by simp [hbs])).2] at ha
        rw [List.append_nil] at has
        subst has
        simpa [firstOffered] using ha
      | cons first rest =>
        rw [List.cons_append] at hafter
        cases hafter
        exact h.arrivals has

theorem single {d d' : Document} {a : Arrival} (hsize : d.size ≤ d'.size)
    (hlive : ∀ {id}, id < d.size → d'.isLive id = true → d.isLive id = true)
    (hnode : d.isLive a.node = true) (hbefore : a.before = d.skipParameters? a.node)
    (hafter : a.after = d'.skipParameters? a.node) (hoffered : a.after = a.before.or a.offered)
    (hothers : ∀ {id}, id ≠ a.node → d'.isLive id = true →
      d'.skipParameters? id = d.skipParameters? id)
    (hanswers : a.Answers) : d.Chronicle [a] d' where
  size := hsize
  live := hlive
  recorded {id} hid := by
    by_cases heq : id = a.node
    · subst heq
      rw [← hafter, ← hbefore, hoffered]
      simp [firstOffered]
    · rw [hothers heq hid]
      have hnone : firstOffered [a] id = none :=
        Arrival.firstOffered_of_forall_ne (by simpa using Ne.symm heq)
      rw [hnone, Option.or_none]
  reached a' ha' := by
    obtain rfl := List.mem_singleton.1 ha'
    obtain ⟨n, hn⟩ := Option.isSome_iff_exists.1 hnode
    exact ⟨Nat.lt_of_lt_of_le (lt_size_of_node? hn) hsize, fun _ => hnode⟩
  arrivals {before a' after} heq := by
    obtain ⟨rfl, rfl, rfl⟩ : before = [] ∧ a' = a ∧ after = [] := by
      cases before with
      | nil =>
        cases heq
        exact ⟨rfl, rfl, rfl⟩
      | cons first rest => simp at heq
    refine ⟨?_, hoffered, hanswers⟩
    rw [hbefore]
    simp [firstOffered]

theorem unchanged {d : Document} {a : Arrival} (hlive : d.isLive a.node = true)
    (hbefore : a.before = d.skipParameters? a.node) (hafter : a.after = d.skipParameters? a.node)
    (hoffered : a.before = a.before.or a.offered) (hanswers : a.Answers) : d.Chronicle [a] d :=
  .single (Nat.le_refl _) (fun _ h => h) hlive hbefore hafter
    (by rw [hafter, ← hbefore, ← hoffered]) (fun _ _ => rfl) hanswers

end Chronicle

end Document

end KeyedRender
