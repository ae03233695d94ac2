import KeyedRender.Proofs.Document.Drawing

/-!
# Changes that change nothing

A change to what is there already gives back the document. Assigning the same names again, in the
same order, gives back the attributes: each name stays in its place, and the value that was
assigned last is assigned last again.
-/
namespace KeyedRender

section Assign

variable {name value other : String} {l : List (String × String)}

theorem assign_eq_self (h : l.lookup name = some value) : assign name value l = l := by
  induction l with
  | nil => cases h
  | cons a rest ih =>
    obtain ⟨first, existing⟩ := a
    rw [List.lookup_cons] at h
    by_cases hname : name = first
    · subst hname
      simp only [beq_self_eq_true, Option.some.injEq] at h
      simp [assign, h]
    · rw [beq_eq_false_iff_ne.2 hname] at h
      rw [assign, if_neg (Ne.symm hname), ih h]

theorem assign_assign (name old value : String) (l : List (String × String)) :
    assign name value (assign name old l) = assign name value l := by
  induction l with
  | nil => simp [assign]
  | cons a rest ih =>
    obtain ⟨first, existing⟩ := a
    by_cases hname : first = name <;> simp [assign, hname, ih]

theorem assign_comm (hne : other ≠ name) (h : (l.lookup name).isSome) (value current : String) :
    assign other current (assign name value l) = assign name value (assign other current l) := by
  induction l with
  | nil => cases h
  | cons a rest ih =>
    obtain ⟨first, existing⟩ := a
    rw [List.lookup_cons] at h
    by_cases hname : name = first
    · subst hname
      simp [assign, Ne.symm hne]
    · rw [beq_eq_false_iff_ne.2 hname] at h
      by_cases hother : first = other
      · subst hother
        simp [assign, Ne.symm hname]
      · simp [assign, Ne.symm hname, hother, ih h]

theorem isSome_lookup_assign (h : (l.lookup name).isSome) :
    ((assign other value l).lookup name).isSome := by
  rw [lookup_assign]
  split
  · rfl
  · exact h

def assignEach (assigned l : List (String × String)) : List (String × String) :=
  assigned.foldl (fun l (name, value) => assign name value l) l

variable {assigned : List (String × String)}

theorem assignEach_cons (name value : String) (assigned l : List (String × String)) :
    assignEach ((name, value) :: assigned) l = assignEach assigned (assign name value l) := rfl

theorem assignEach_append (assigned more l : List (String × String)) :
    assignEach (assigned ++ more) l = assignEach more (assignEach assigned l) :=
  List.foldl_append

theorem isSome_lookup_assignEach (h : (l.lookup name).isSome) :
    ((assignEach assigned l).lookup name).isSome := by
  induction assigned generalizing l with
  | nil => exact h
  | cons a rest ih => exact ih (isSome_lookup_assign h)

theorem isSome_lookup_assignEach_of_mem (h : name ∈ assigned.map Prod.fst)
    (l : List (String × String)) : ((assignEach assigned l).lookup name).isSome := by
  induction assigned generalizing l with
  | nil => cases h
  | cons a rest ih =>
    rcases List.mem_cons.1 h with rfl | hrest
    · have hfirst : ((assign a.1 a.2 l).lookup a.1).isSome := by
        rw [lookup_assign, if_pos rfl]
        rfl
      rw [assignEach_cons]
      exact isSome_lookup_assignEach hfirst
    · exact ih hrest _

theorem lookup_assignEach_of_notMem (h : name ∉ assigned.map Prod.fst) :
    (assignEach assigned l).lookup name = l.lookup name := by
  induction assigned generalizing l with
  | nil => rfl
  | cons a rest ih =>
    obtain ⟨hfirst, hrest⟩ : name ≠ a.1 ∧ name ∉ rest.map Prod.fst := by simpa using h
    rw [assignEach_cons, ih hrest, lookup_assign, if_neg hfirst]

theorem assignEach_assign_of_mem (hname : name ∈ assigned.map Prod.fst)
    (h : (l.lookup name).isSome) (value : String) :
    assignEach assigned (assign name value l) = assignEach assigned l := by
  induction assigned generalizing l with
  | nil => cases hname
  | cons a rest ih =>
    obtain ⟨other, current⟩ := a
    rw [assignEach_cons, assignEach_cons]
    by_cases hother : other = name
    · rw [hother, assign_assign]
    · have hrest : name ∈ rest.map Prod.fst :=
        (List.mem_cons.1 hname).resolve_left (Ne.symm hother)
      rw [assign_comm hother h, ih hrest (isSome_lookup_assign h)]

theorem assignEach_assignEach (assigned l : List (String × String)) :
    assignEach assigned (assignEach assigned l) = assignEach assigned l := by
  induction assigned generalizing l with
  | nil => rfl
  | cons a rest ih =>
    obtain ⟨name, value⟩ := a
    have hlookup : (assign name value l).lookup name = some value := by
      rw [lookup_assign, if_pos rfl]
    rw [assignEach_cons, assignEach_cons]
    by_cases hname : name ∈ rest.map Prod.fst
    · have hthere : ((assignEach rest (assign name value l)).lookup name).isSome :=
        isSome_lookup_assignEach (by rw [hlookup]; rfl)
      rw [assignEach_assign_of_mem hname hthere, ih]
    · rw [assign_eq_self ((lookup_assignEach_of_notMem hname).trans hlookup), ih]

end Assign

inductive Assignment
  | toAttribute (name value : String)
  | toProperty (name value : String)

def Assignment.attribute? : Assignment → Option (String × String)
  | toAttribute name value => some (name, value)
  | toProperty _ _ => none

def Assignment.property? : Assignment → Option (String × String)
  | toAttribute _ _ => none
  | toProperty name value => some (name, value)

namespace Element

def assign : Assignment → Element → Element
  | .toAttribute name value => setAttribute name value
  | .toProperty name value => setProperty name value

def assignAll (assigned : List Assignment) (e : Element) : Element :=
  { e with
    attributes := assignEach (assigned.filterMap Assignment.attribute?) e.attributes
    properties := assignEach (assigned.filterMap Assignment.property?) e.properties }

@[simp] theorem children_assign (a : Assignment) (e : Element) :
    (e.assign a).children = e.children := by
  cases a <;> rfl

theorem sameHead_assign (a : Assignment) (e : Element) : e.SameHead (e.assign a) := by
  cases a <;> exact ⟨rfl, rfl, rfl⟩

@[simp] theorem assignAll_nil : assignAll [] = id := rfl

theorem assignAll_cons (a : Assignment) (assigned : List Assignment) :
    assignAll (a :: assigned) = assignAll assigned ∘ assign a := by
  cases a <;> rfl

theorem assignAll_append (assigned more : List Assignment) (e : Element) :
    e.assignAll (assigned ++ more) = (e.assignAll assigned).assignAll more := by
  simp only [assignAll, List.filterMap_append, assignEach_append]

theorem assignAll_assignAll (assigned : List Assignment) (e : Element) (l : List NodeId) :
    assignAll assigned { e.assignAll assigned with children := l } =
      { e.assignAll assigned with children := l } := by
  simp only [assignAll, assignEach_assignEach]

end Element

namespace Document

variable {d d' : Document} {id : NodeId} {e : Element}

theorem ext_node? (hsize : d'.size = d.size) (hnode : ∀ id, d'.node? id = d.node? id) : d' = d := by
  obtain ⟨nodes⟩ := d
  obtain ⟨nodes'⟩ := d'
  congr
  refine Array.ext hsize fun i hi hi' => ?_
  have h := hnode i
  simpa [node?, Array.getElem?_eq_getElem hi, Array.getElem?_eq_getElem hi'] using h

theorem setContent_eq_self {content : Content} (h : d.content? id = some content) :
    d.setContent id content = d := by
  obtain ⟨n, hn, rfl⟩ := Option.map_eq_some_iff.1 h
  refine ext_node? (size_setContent ..) fun other => ?_
  rw [node?_setContent]
  split
  · next hid => rw [hid, hn]; rfl
  · rfl

theorem updateElement_eq_self {change : Element → Element} (he : d.element? id = some e)
    (h : change e = e) : d.updateElement id change = d := by
  rw [updateElement, he]
  simp only [h]
  exact setContent_eq_self (element?_eq_some_iff.1 he)

theorem setChildren_eq_self (he : d.element? id = some e) : d.setChildren id e.children = d :=
  updateElement_eq_self he rfl

theorem setContent_setContent (d : Document) (id : NodeId) (old content : Content) :
    (d.setContent id old).setContent id content = d.setContent id content := by
  refine ext_node? (by simp) fun other => ?_
  simp only [node?_setContent]
  split
  · cases d.node? id <;> rfl
  · rfl

theorem updateElement_updateElement (d : Document) (id : NodeId)
    (first second : Element → Element) :
    (d.updateElement id first).updateElement id second = d.updateElement id (second ∘ first) := by
  cases he : d.element? id with
  | none =>
    have hnothing : ∀ change, d.updateElement id change = d := fun change => by
      rw [updateElement, he]
    rw [hnothing, hnothing, hnothing]
  | some e =>
    have hfirst : d.updateElement id first = d.setContent id (.element (first e)) := by
      rw [updateElement, he]
    have he' : (d.updateElement id first).element? id = some (first e) := by
      rw [element?_updateElement, if_pos rfl, he]
      rfl
    rw [updateElement, he', hfirst, updateElement, he]
    exact setContent_setContent ..

@[simp] theorem dropAll_nil (d : Document) : d.dropAll [] = d := rfl

end Document

end KeyedRender
