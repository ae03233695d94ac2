import KeyedRender.Proofs.Payload.Members
import KeyedRender.Proofs.Session.Arrivals

/-!
# Payloads that are supplied again

What is recorded of a node is the text of a payload, and a later payload is compared with it by its
own text. The texts are the same only if the payloads are, so that a changed payload is reported.
-/
namespace KeyedRender

/-- A step that supplies a payload to an element with content, opened by a server's key. -/
structure Moment.Supplies (m : Moment KeyedDom) (p : Payload) (a : Arrival) : Prop where
  question : ∃ name key, m.question = .block (.openServerElement name key (some p))
  supplied : p.isSupplied = true
  arrival : m.arrival? = some a
  content : a.hasContent = true

def Question.payload? : Question → Option Payload
  | .block (.openServerElement _ _ parameters) => parameters
  | _ => none

theorem Question.exists_of_payload? {q : Question} {p : Payload} (h : q.payload? = some p) :
    ∃ name key, q = .block (.openServerElement name key (some p)) := by
  unfold payload? at h
  split at h
  · next name key parameters =>
    subst h
    exact ⟨name, key, rfl⟩
  · cases h

theorem Moment.Supplies.offered {m : Moment KeyedDom} {p : Payload} {a : Arrival}
    (h : m.Supplies p a) : a.supplied = some p.indentedText ∧ a.offered = some p.indentedText := by
  obtain ⟨name, key, hquestion⟩ := h.question
  have hsupplied : a.supplied = some p.indentedText := by
    have ha := h.arrival
    unfold Moment.arrival? at ha
    split at ha
    · next hserved _ =>
      rw [hquestion] at hserved
      cases hserved
      split at ha
      · split at ha
        · cases ha
          simp [h.supplied]
        · cases ha
      · cases ha
    · cases ha
  exact ⟨hsupplied, by rw [Arrival.offered, if_pos h.content, hsupplied]⟩

theorem Document.Chronicle.found_again {d d' : Document} {as past between future : List Arrival}
    {first again : Arrival} {text : String} (h : d.Chronicle as d')
    (has : as = past ++ first :: (between ++ again :: future)) (hnode : again.node = first.node)
    (hrecorded : first.before = none) (hoffered : first.offered = some text) :
    first.after = some text ∧ again.before = some text ∧ again.Answers := by
  obtain ⟨hbefore, hafter, -⟩ := h.arrivals has
  have hlater : as = (past ++ first :: between) ++ again :: future := by
    rw [has, List.append_assoc, List.cons_append]
  obtain ⟨hagain, -, hanswers⟩ := h.arrivals hlater
  rw [hrecorded] at hbefore hafter
  refine ⟨by rw [hafter, hoffered, Option.none_or], ?_, hanswers⟩
  rw [hagain, hnode, Arrival.firstOffered_append, ← Option.or_assoc, ← hbefore, Option.none_or]
  simp [Arrival.firstOffered, hoffered]

namespace Session

/-- An element that recorded a payload, and to which a payload is supplied again, is skipped without
an error exactly if both payloads are the same; else both texts are reported. -/
theorem skipped_again_iff_same {acts : List Act} {s s' : Session KeyedDom}
    (h : performAll acts s = .ok s') {past between future : List (Moment KeyedDom)}
    {m m' : Moment KeyedDom} (hms : moments acts s = past ++ m :: (between ++ m' :: future))
    {old new : Payload} {first again : Arrival} (hfirst : m.Supplies old first)
    (hagain : m'.Supplies new again) (hnode : again.node = first.node)
    (hrecorded : first.before = none) :
    first.after = some old.indentedText ∧
      (again.result = .ok false ↔ new.Same old) ∧
      (¬ new.Same old → ∃ element, again.result = .error
        (.skipParametersChanged old.indentedText new.indentedText element)) := by
  have hpassage := passage_performAll h
  have has : (moments acts s).filterMap Moment.arrival? =
      past.filterMap Moment.arrival? ++ first ::
        (between.filterMap Moment.arrival? ++ again :: future.filterMap Moment.arrival?) := by
    rw [hms, List.filterMap_append, List.filterMap_cons_some hfirst.arrival, List.filterMap_append,
      List.filterMap_cons_some hagain.arrival]
  obtain ⟨hafter, hbefore, hanswers⟩ :=
    hpassage.whole.found_again has hnode hrecorded hfirst.offered.2
  simp only [Arrival.Answers, hagain.content, if_true, hagain.offered.1, hbefore] at hanswers
  rw [Payload.same_iff_eq]
  refine ⟨hafter, ?_⟩
  by_cases heq : new = old
  · rw [if_pos (congrArg _ heq)] at hanswers
    exact ⟨⟨fun _ => heq, fun _ => hanswers⟩, fun hne => absurd heq hne⟩
  · rw [if_neg fun htext => heq (Payload.indentedText_injective htext)] at hanswers
    obtain ⟨element, hreported⟩ := hanswers
    refine ⟨⟨fun hskipped => ?_, fun hsame => absurd hsame heq⟩, fun _ => ⟨element, hreported⟩⟩
    rw [hreported] at hskipped
    cases hskipped

def suppliedPass (p : Payload) : Act :=
  .pass ⟨"", .null, loggedText, true⟩ (.bracketed 0 .inner .keyed none
    (.block (.openServerElement "p" "list" (some p)) .done .done))

def oneNumber : Payload := .ofMembers [("n", .list [.int 1])]

def oneText : Payload := .ofMembers [("n", .list [.text "1"])]

def suppliedTwice : List Act :=
  [.appendElement 0 "p" "list", .appendText 1 "x", suppliedPass oneNumber, suppliedPass oneText]

theorem skipped_again_iff_same_twice :
    ∃ s m m' first again, performAll suppliedTwice (start .new) = .ok s ∧
      moments suppliedTwice (start .new) = [m, m'] ∧
      m.Supplies oneNumber first ∧ m'.Supplies oneText again ∧
      again.node = first.node ∧ first.before = none ∧
      first.after = some oneNumber.indentedText ∧
      ∃ element, again.result = .error
        (.skipParametersChanged oneNumber.indentedText oneText.indentedText element) := by
  have hsupplies : ∀ {m : Moment KeyedDom} {p : Payload} {before : Option String},
      m.question.payload?.map Payload.indentedText = some p.indentedText →
      p.isSupplied = true →
      (m.arrival?.map fun a => (a.node, a.hasContent, a.before)) = some (1, true, before) →
      ∃ a, m.Supplies p a ∧ a.node = 1 ∧ a.before = before := by
    intro m p before hquestion hp harrival
    obtain ⟨q, hq, htext⟩ := Option.map_eq_some_iff.1 hquestion
    obtain rfl := Payload.indentedText_injective htext
    obtain ⟨a, ha, hparts⟩ := Option.map_eq_some_iff.1 harrival
    simp only [Prod.mk.injEq] at hparts
    exact ⟨a, ⟨Question.exists_of_payload? hq, hp, ha, hparts.2.1⟩, hparts.1, hparts.2.2⟩
  have hquestions : (moments suppliedTwice (start .new)).map
      (fun m => m.question.payload?.map Payload.indentedText) =
        [some oneNumber.indentedText, some oneText.indentedText] := by decide +kernel
  have harrivals : (moments suppliedTwice (start .new)).map
      (fun m => m.arrival?.map fun a => (a.node, a.hasContent, a.before)) =
        [some (1, true, none), some (1, true, some oneNumber.indentedText)] := by decide +kernel
  obtain ⟨m, m', hms⟩ := List.length_eq_two.1
    (show (moments suppliedTwice (start .new)).length = 2 by decide +kernel)
  rw [hms] at hquestions harrivals
  simp only [List.map_cons, List.map_nil, List.cons.injEq, and_true] at hquestions harrivals
  obtain ⟨first, hfirst, hnode, hbefore⟩ := hsupplies hquestions.1 rfl harrivals.1
  obtain ⟨again, hagain, hnode', -⟩ := hsupplies hquestions.2 rfl harrivals.2
  have hdone : (performAll suppliedTwice (start .new)).isOk = true := by decide +kernel
  cases hs : performAll suppliedTwice (start .new) with
  | error f =>
    rw [hs] at hdone
    cases hdone
  | ok s =>
    have hsame : again.node = first.node := hnode'.trans hnode.symm
    obtain ⟨hafter, -, hreported⟩ := skipped_again_iff_same hs
      (show moments suppliedTwice (start .new) = [] ++ m :: ([] ++ m' :: []) from hms)
      hfirst hagain hsame hbefore
    have hchanged : ¬ oneText.Same oneNumber := by
      rw [Payload.same_iff_eq, Payload.ext_iff]
      simp [oneText, oneNumber, Payload.ofMembers, Payload.list, Payload.text, Payload.int,
        Json.ofMembers, Json.insertMember]
    exact ⟨s, m, m', first, again, rfl, hms, hfirst, hagain, hsame, hbefore, hafter,
      hreported hchanged⟩

end Session

end KeyedRender
