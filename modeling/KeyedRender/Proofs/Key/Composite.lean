import KeyedRender.Proofs.Key.Delimited

/-!
# Composite keys

A composite key is the encoded fragments of some calls, one after the other. Of two composite keys
one continues the other exactly if the fragments of one continue those of the other, so that no
text ends in the middle of a fragment by accident. Comparing the keys byte by byte makes no
difference.
-/
namespace KeyedRender.Key

def composite : List Fragment → String
  | [] => ""
  | f :: rest => encode f ++ composite rest

@[simp] theorem toList_composite_nil : (composite []).toList = [] := rfl

@[simp] theorem toList_composite_cons (f : Fragment) (rest : List Fragment) :
    (composite (f :: rest)).toList = f.encoded ++ (composite rest).toList := by
  simp [composite]

theorem encoded_eq_of_identity {a b : Fragment} (h : a.identity = b.identity) :
    a.encoded = b.encoded := by
  rw [← toList_encode, encode_eq_of_identity h, toList_encode]

theorem encoded_ne_nil (f : Fragment) : f.encoded ≠ [] := by
  simp [Fragment.encoded, chunk]

/-- The first fragments of two keys, one of which continues the other, are the same. -/
theorem composite_prefix_iff {fs gs : List Fragment} :
    (composite fs).toList <+: (composite gs).toList ↔
      fs.map Fragment.identity <+: gs.map Fragment.identity := by
  induction fs generalizing gs with
  | nil => simp
  | cons f fs ih =>
    cases gs with
    | nil => simp [encoded_ne_nil]
    | cons g gs =>
      rw [List.map_cons, List.map_cons, List.cons_prefix_cons, ← ih]
      refine ⟨fun h => ?_, fun ⟨hidentity, hrest⟩ => ?_⟩
      · have hidentity : f.identity = g.identity :=
          identity_of_isPrefix (x := composite fs) (y := composite gs) h
        rw [toList_composite_cons, toList_composite_cons, encoded_eq_of_identity hidentity] at h
        exact ⟨hidentity, (List.prefix_append_right_inj _).1 h⟩
      · rw [toList_composite_cons, toList_composite_cons, encoded_eq_of_identity hidentity]
        exact (List.prefix_append_right_inj _).2 hrest

theorem composite_inj {fs gs : List Fragment} :
    composite fs = composite gs ↔ fs.map Fragment.identity = gs.map Fragment.identity := by
  have hprefix : ∀ {α : Type} {l m : List α}, l = m ↔ l <+: m ∧ m <+: l := fun {_ l m} =>
    ⟨by rintro rfl; exact ⟨List.prefix_rfl, List.prefix_rfl⟩,
      fun h => h.1.eq_of_length (Nat.le_antisymm h.1.length_le h.2.length_le)⟩
  rw [String.ext_iff, hprefix, hprefix, composite_prefix_iff, composite_prefix_iff]

/-- Whether the bytes of one text are the first bytes of another. -/
def BeginsWith (text start : String) : Prop :=
  ∃ rest, start.toByteArray ++ rest = text.toByteArray

theorem beginsWith_iff {text start : String} :
    BeginsWith text start ↔ start.toList <+: text.toList := by
  refine ⟨fun ⟨rest, h⟩ => ?_, fun ⟨rest, h⟩ => ⟨(String.ofList rest).toByteArray, ?_⟩⟩
  · rw [← String.utf8Encode_toList, ← String.utf8Encode_toList] at h
    exact List.isPrefix_of_utf8Encode_append_eq_utf8Encode rest h
  · rw [← String.toByteArray_append]
    congr 1
    rw [String.ext_iff]
    simpa using h

theorem isMatchingText_iff {s t : String} :
    isMatchingText s t = true ↔ t.toList <+: s.toList ∨ s.toList <+: t.toList := by
  simp [isMatchingText]

/-- Two composite keys match exactly if the kinds and texts of one begin those of the other, and
they are equal exactly if these are. An encoded fragment that begins another one is equal to it. -/
theorem isMatchingText_composite_iff (fs gs : List Fragment) :
    (isMatchingText (composite fs) (composite gs) = true ↔
      fs.map Fragment.identity <+: gs.map Fragment.identity ∨
        gs.map Fragment.identity <+: fs.map Fragment.identity) ∧
    (isMatchingText (composite fs) (composite gs) = true ↔
      BeginsWith (composite fs) (composite gs) ∨ BeginsWith (composite gs) (composite fs)) ∧
    (composite fs = composite gs ↔ fs.map Fragment.identity = gs.map Fragment.identity) ∧
    ∀ f g : Fragment, BeginsWith (encode g) (encode f) → encode f = encode g := by
  refine ⟨?matching, ?bytes, composite_inj, fun f g h => ?single⟩
  case matching => rw [isMatchingText_iff, composite_prefix_iff, composite_prefix_iff, or_comm]
  case bytes => rw [isMatchingText_iff, beginsWith_iff, beginsWith_iff]
  case single =>
    rw [beginsWith_iff] at h
    refine encode_eq_of_identity (identity_of_isPrefix (x := "") (y := "") ?_)
    simpa using h

end KeyedRender.Key
