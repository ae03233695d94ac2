import KeyedRender.Key.Decoding
import KeyedRender.Proofs.Key.Composite
import KeyedRender.Proofs.Decimal.Length

/-!
# Reading composite keys

Reading a composite key gives back the kinds and the texts of its fragments, from the innermost one
on, and ends without a failure. The length of a text has to fit in a word; the texts of numbers are
far from that bound.
-/
namespace KeyedRender.Key

theorem cutUnits_units (content rest : List Char) :
    cutUnits (Text.units content) (content ++ rest) = .whole content rest := by
  induction content with
  | nil => cases rest <;> rfl
  | cons c content ih =>
    have hpos := Text.unitWidth_pos c
    have hne : Text.unitWidth c + Text.units content ≠ 0 := by omega
    have hrest : Text.unitWidth c + Text.units content - Text.unitWidth c = Text.units content := by
      omega
    rw [List.cons_append, Text.units, cutUnits, if_neg hne, if_pos (Nat.le_add_right _ _), hrest,
      ih, Cut.push]

theorem dropWhile_chunk (kind : FragmentKind) (content rest : List Char) :
    (chunk kind content ++ rest).dropWhile Char.isDigit = kind.tag :: (content ++ rest) := by
  rw [chunk, List.append_assoc, List.dropWhile_append_of_pos (isDigit_of_mem_units content)]
  simp [isDigit_tag]

namespace Cursor

theorem readChunk_chunk (offset : Nat) (kind : FragmentKind) {content : List Char}
    (rest : List Char) (h : Text.units content < Text.words64) :
    readChunk offset (chunk kind content ++ rest) = .ok (⟨kind, content⟩, rest) := by
  have hlength : Decimal.digitsValue (Nat.toDigits 10 (Text.units content)) = Text.units content :=
    Nat.ofDigitChars_ten_toDigits
  have hdigits : (Nat.toDigits 10 (Text.units content)).isEmpty = false := by
    simp [Nat.toDigits_ne_nil]
  simp only [readChunk, takeWhile_chunk, dropWhile_chunk, hdigits, hlength, Nat.not_le.2 h,
    FragmentKind.ofTag?_tag, cutUnits_units, Bool.false_eq_true, if_false]

theorem collect_of_readChunk {offset : Nat} {text rest : List Char} {c : Chunk}
    (hne : text ≠ []) (h : readChunk offset text = .ok (c, rest)) :
    ∃ later, (Cursor.mk offset text).collect =
      ⟨c :: (Cursor.mk later rest).collect.chunks, (Cursor.mk later rest).collect.failure⟩ := by
  have hempty : text.isEmpty = false := by simpa using hne
  have hnext : (Cursor.mk offset text).next? =
      some (.ok c, (Cursor.mk offset text).advance rest) := by
    simp only [next?, hempty, h, Bool.false_eq_true, if_false]
  rw [collect]
  split
  · next hnone => rw [hnone] at hnext; cases hnext
  · next herror => rw [herror] at hnext; cases hnext
  · next found later hfound =>
    rw [hfound] at hnext
    cases hnext
    exact ⟨_, rfl⟩

theorem collect_chunk (offset : Nat) (kind : FragmentKind) {content : List Char} (rest : List Char)
    (h : Text.units content < Text.words64) :
    ∃ later, (Cursor.mk offset (chunk kind content ++ rest)).collect =
      ⟨⟨kind, content⟩ :: (Cursor.mk later rest).collect.chunks,
        (Cursor.mk later rest).collect.failure⟩ :=
  collect_of_readChunk (by simp [chunk]) (readChunk_chunk offset kind rest h)

end Cursor

def Fragment.chunk (f : Fragment) : Chunk := ⟨f.kind, f.content⟩

theorem Fragment.units_content_lt {f : Fragment}
    (h : ∀ text, f = .text text → Text.units text.toList < Text.words64) :
    Text.units f.content < Text.words64 := by
  cases f with
  | absent => decide
  | number value =>
    have hlength := length_numberText_le value
    have hunits := Text.units_le_two_mul_length (numberText value)
    exact Nat.lt_of_le_of_lt (hunits.trans (Nat.mul_le_mul_left 2 hlength)) (by decide)
  | text value => exact h value rfl

theorem collect_composite {fs : List Fragment}
    (h : ∀ text, .text text ∈ fs → Text.units text.toList < Text.words64) (offset : Nat) :
    (Cursor.mk offset (composite fs).toList).collect = ⟨fs.map Fragment.chunk, none⟩ := by
  induction fs generalizing offset with
  | nil => rw [Cursor.collect]; rfl
  | cons f fs ih =>
    have hf : Text.units f.content < Text.words64 :=
      Fragment.units_content_lt fun text heq => h text (by simp [heq])
    rw [toList_composite_cons, Fragment.encoded]
    obtain ⟨later, hlater⟩ := Cursor.collect_chunk offset f.kind (composite fs).toList hf
    rw [hlater, ih fun text hmem => h text (List.mem_cons_of_mem f hmem)]
    rfl

theorem Fragment.fragment_chunk {f : Fragment} (h : f.kind ≠ .number) : f.chunk.fragment = f := by
  cases f with
  | absent => rfl
  | number value => exact absurd rfl h
  | text value => simp [Fragment.chunk, Chunk.fragment, Fragment.kind, Fragment.content]

/-- Reading a composite key yields one chunk for each fragment, in order, with the kind and the text
of the fragment, and no failure. A chunk that is not a number stands for the fragment itself. The
length of a text in code units is a word, as it is of every text that memory has room for. -/
theorem decode_composite (fs : List Fragment)
    (h : ∀ text, .text text ∈ fs → Text.units text.toList < Text.words64) :
    decode (composite fs) = ⟨fs.map fun f => ⟨f.kind, f.content⟩, none⟩ ∧
      ∀ f ∈ fs, f.kind ≠ .number → (Chunk.mk f.kind f.content).fragment = f :=
  ⟨collect_composite h 0, fun _ _ hkind => Fragment.fragment_chunk hkind⟩

theorem decode_composite_mixed :
    decode (composite [.text "12:_", .absent, .number (.ofInt 7), .text "3𝄞"]) =
      ⟨[⟨.text, "12:_".toList⟩, ⟨.absent, "null".toList⟩, ⟨.number, ['7']⟩, ⟨.text, "3𝄞".toList⟩],
        none⟩ := by
  have hseven : Key.numberText (.ofInt 7) = ['7'] := by decide +kernel
  refine (decode_composite _ ?short).1.trans ?chunks
  case short =>
    intro text htext
    simp only [List.mem_cons, Fragment.text.injEq, reduceCtorEq, List.not_mem_nil, false_or,
      or_false] at htext
    rcases htext with rfl | rfl <;> decide
  case chunks => simp [Fragment.kind, Fragment.content, hseven]

end KeyedRender.Key
