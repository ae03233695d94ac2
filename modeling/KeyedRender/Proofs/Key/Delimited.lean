import KeyedRender.Key.Matching
import KeyedRender.Key.Fragment

/-!
# Encoded keys delimit themselves

The length in front of an encoded fragment says where it ends, so that two composite keys of which
one continues the other begin with the same fragment.
-/
namespace KeyedRender.Key

abbrev Identity := FragmentKind × List Char

def Fragment.identity (f : Fragment) : Identity := (f.kind, f.content)

theorem encode_eq_of_identity {a b : Fragment} (h : a.identity = b.identity) :
    encode a = encode b := by
  simp only [Fragment.identity, Prod.mk.injEq] at h
  simp only [encode, Fragment.encoded, h]

theorem isDigit_tag (kind : FragmentKind) : kind.tag.isDigit = false := by
  cases kind <;> decide

theorem toDigits_injective {m n : Nat} (h : Nat.toDigits 10 m = Nat.toDigits 10 n) : m = n := by
  rw [← @Nat.ofDigitChars_ten_toDigits m, h, Nat.ofDigitChars_ten_toDigits]

theorem isDigit_of_mem_units (content : List Char) :
    ∀ c ∈ Nat.toDigits 10 (Text.units content), c.isDigit = true := fun _ hc =>
  Nat.isDigit_of_mem_toDigits (by decide) (by decide) hc

theorem takeWhile_chunk (kind : FragmentKind) (content rest : List Char) :
    (chunk kind content ++ rest).takeWhile Char.isDigit = Nat.toDigits 10 (Text.units content) := by
  rw [chunk, List.append_assoc, List.takeWhile_append_of_pos (isDigit_of_mem_units content)]
  simp [isDigit_tag]

theorem eq_nil_of_units_eq_zero {text : List Char} (h : Text.units text = 0) : text = [] := by
  cases text with
  | nil => rfl
  | cons c rest =>
    have hpos := Text.unitWidth_pos c
    simp only [Text.units] at h
    omega

theorem eq_of_append_eq {first second x y : List Char} (h : first ++ x = second ++ y)
    (hunits : Text.units first = Text.units second) : first = second := by
  rcases List.append_eq_append_iff.1 h with ⟨more, rfl, -⟩ | ⟨more, rfl, -⟩
  · have hmore : Text.units more = 0 := by simpa using hunits
    simp [eq_nil_of_units_eq_zero hmore]
  · have hmore : Text.units more = 0 := by simpa using hunits
    simp [eq_nil_of_units_eq_zero hmore]

theorem chunk_delimited {kind kind' : FragmentKind} {content content' x y : List Char}
    (h : chunk kind content ++ x = chunk kind' content' ++ y) :
    kind = kind' ∧ content = content' := by
  -- The digits end before the tag, so both texts begin with the same length.
  have hdigits : Nat.toDigits 10 (Text.units content) = Nat.toDigits 10 (Text.units content') := by
    rw [← takeWhile_chunk kind content x, h, takeWhile_chunk]
  have hunits := toDigits_injective hdigits
  have hrest : kind.tag :: (content ++ x) = kind'.tag :: (content' ++ y) := by
    simpa [chunk, hdigits] using h
  obtain ⟨htag, htext⟩ := List.cons.inj hrest
  have hkind : some kind = some kind' := by
    rw [← FragmentKind.ofTag?_tag kind, htag, FragmentKind.ofTag?_tag]
  exact ⟨Option.some.inj hkind, eq_of_append_eq htext hunits⟩

theorem identity_of_isPrefix {a b : Fragment} {x y : String}
    (h : (encode a ++ x).toList <+: (encode b ++ y).toList) : a.identity = b.identity := by
  obtain ⟨rest, hrest⟩ := h
  have heq : chunk a.kind a.content ++ (x.toList ++ rest) = chunk b.kind b.content ++ y.toList := by
    simpa [Fragment.encoded] using hrest
  obtain ⟨hkind, hcontent⟩ := chunk_delimited heq
  simp [Fragment.identity, hkind, hcontent]

theorem identity_of_isMatchingText {a b : Fragment} {x y : String}
    (h : isMatchingText (encode a ++ x) (encode b ++ y) = true) : a.identity = b.identity := by
  simp only [isMatchingText, Bool.or_eq_true, List.isPrefixOf_iff_prefix] at h
  rcases h with h | h
  · exact (identity_of_isPrefix h).symm
  · exact identity_of_isPrefix h

@[simp] theorem isMatchingText_self (s : String) : isMatchingText s s = true := by
  simp [isMatchingText]

/-- Under both rules an element is found again under its own name and text key only. -/
theorem MatchRule.accepts_iff (rule : MatchRule) {name existing key existingKey stack : String} :
    rule.accepts name existing (encode (.text key) ++ stack) (encode (.text existingKey) ++ stack) =
      true ↔ name = existing ∧ key = existingKey := by
  have hkey : ∀ {k k' : String},
      (Fragment.text k).identity = (Fragment.text k').identity → k = k' := by
    intro k k' h
    have hcontent := (Prod.mk.inj h).2
    simpa [Fragment.content, String.ext_iff] using hcontent
  cases rule with
  | keyed =>
    simp only [MatchRule.accepts, elementMatches, isMatching, Bool.and_eq_true, decide_eq_true_eq]
    refine and_congr_right fun _ => ⟨fun h => hkey (identity_of_isMatchingText h), fun h => ?_⟩
    rw [h, isMatchingText_self]
  | exact =>
    simp only [MatchRule.accepts, Bool.and_eq_true, decide_eq_true_eq]
    refine and_congr_right fun _ => ⟨fun h => hkey ?_, fun h => by rw [h]⟩
    exact identity_of_isMatchingText (x := stack) (y := stack) (by rw [h, isMatchingText_self])

end KeyedRender.Key
