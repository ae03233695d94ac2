import KeyedRender.Proofs.Key.RoundTrip
import Mathlib.Data.List.Basic
import Mathlib.Data.List.Induction
import Mathlib.Data.List.TakeWhile

/-!
# The grammar of encoded keys

A text can be read as a key exactly if it is a sequence of chunks, each with the digits of its
length in front, a tag, and a content of that length. There is one way to divide it. What is read
and written back differs from the text only in the zeros in front of the lengths.
-/
namespace KeyedRender.Key

/-- A chunk, and the digits that its length is written with. -/
structure Spelling where
  digits : List Char
  chunk : Chunk
deriving DecidableEq

namespace Spelling

def text (s : Spelling) : List Char := s.digits ++ s.chunk.kind.tag :: s.chunk.raw

/-- The digits are a word, and the length of the content. -/
structure Valid (s : Spelling) : Prop where
  digits_ne_nil : s.digits ≠ []
  isDigit : ∀ c ∈ s.digits, c.isDigit = true
  fits : Decimal.digitsValue s.digits < Text.words64
  length : Decimal.digitsValue s.digits = Text.units s.chunk.raw

/-- The digits from the first one on that is not zero, or a single zero. -/
def significant (digits : List Char) : List Char :=
  match digits.dropWhile (· = '0') with
  | [] => ['0']
  | first :: rest => first :: rest

def trimmed (s : Spelling) : Spelling := { s with digits := significant s.digits }

end Spelling

structure Spells (spellings : List Spelling) (text : List Char) : Prop where
  valid : ∀ s ∈ spellings, s.Valid
  text_eq : text = spellings.flatMap Spelling.text

section Digits

theorem digitChar_of_isDigit {c : Char} (h : c.isDigit = true) :
    c.toNat - '0'.toNat < 10 ∧ Nat.digitChar (c.toNat - '0'.toNat) = c := by
  have hrange := Char.isDigit_iff_toNat.1 h
  have hzero : '0'.toNat = 48 := rfl
  have hnine : '9'.toNat = 57 := rfl
  have hlt : c.toNat - '0'.toNat < 10 := by omega
  refine ⟨hlt, Char.toNat_inj.1 ?_⟩
  rw [Nat.toNat_digitChar_of_lt_ten hlt]
  omega

theorem significant_concat_of_significant {digits : List Char} {c : Char}
    (h : digits.dropWhile (· = '0') ≠ []) :
    Spelling.significant (digits ++ [c]) = Spelling.significant digits ++ [c] := by
  unfold Spelling.significant
  rw [List.dropWhile_append]
  cases hdrop : digits.dropWhile (· = '0') with
  | nil => exact absurd hdrop h
  | cons first rest => simp

theorem significant_concat_of_zeros {digits : List Char} {c : Char}
    (h : digits.dropWhile (· = '0') = []) : Spelling.significant (digits ++ [c]) = [c] := by
  unfold Spelling.significant
  rw [List.dropWhile_append, h]
  by_cases hc : c = '0'
  · simp [hc]
  · simp [hc]

theorem digitsValue_eq_zero_iff {digits : List Char} (h : ∀ c ∈ digits, c.isDigit = true) :
    Decimal.digitsValue digits = 0 ↔ digits.dropWhile (· = '0') = [] := by
  induction digits using List.reverseRecOn with
  | nil => simp [Decimal.digitsValue]
  | append_singleton digits c ih =>
    have hc := digitChar_of_isDigit (h c (by simp))
    have hzero : c.toNat - '0'.toNat = 0 ↔ c = '0' := by
      refine ⟨fun hvalue => ?_, fun heq => by rw [heq, Nat.sub_self]⟩
      rw [← hc.2, hvalue]
      rfl
    have hfirst := ih fun d hd => h d (by simp [hd])
    rw [Decimal.digitsValue_concat, Nat.add_eq_zero_iff, hzero, Nat.mul_eq_zero, hfirst]
    simp only [List.dropWhile_eq_nil_iff, List.mem_append, List.mem_singleton, decide_eq_true_eq]
    constructor
    · rintro ⟨hten | hall, rfl⟩ d (hd | rfl)
      · cases hten
      · rfl
      · exact hall d hd
      · rfl
    · exact fun hall => ⟨Or.inr fun d hd => hall d (Or.inl hd), hall c (Or.inr rfl)⟩

theorem toDigits_digitsValue {digits : List Char} (hne : digits ≠ [])
    (h : ∀ c ∈ digits, c.isDigit = true) :
    Nat.toDigits 10 (Decimal.digitsValue digits) = Spelling.significant digits := by
  induction digits using List.reverseRecOn with
  | nil => exact absurd rfl hne
  | append_singleton digits c ih =>
    obtain ⟨hlt, hchar⟩ := digitChar_of_isDigit (h c (by simp))
    have hdigits : ∀ d ∈ digits, d.isDigit = true := fun d hd => h d (by simp [hd])
    have hlast : Nat.toDigits 10 (c.toNat - '0'.toNat) = [c] := by
      rw [Nat.toDigits_of_lt_base hlt, hchar]
    rw [Decimal.digitsValue_concat]
    by_cases hzeros : digits.dropWhile (· = '0') = []
    · rw [(digitsValue_eq_zero_iff hdigits).2 hzeros, Nat.mul_zero, Nat.zero_add, hlast,
        significant_concat_of_zeros hzeros]
    · have hpos : 0 < Decimal.digitsValue digits :=
        Nat.pos_of_ne_zero fun hzero => hzeros ((digitsValue_eq_zero_iff hdigits).1 hzero)
      have hnil : digits ≠ [] := by rintro rfl; exact hzeros rfl
      rw [significant_concat_of_significant hzeros, ← ih hnil hdigits, ← hlast]
      exact (Nat.toDigits_append_toDigits (by decide) hpos hlt).symm

end Digits

namespace Spelling

variable {s t : Spelling}

theorem takeWhile_text (h : s.Valid) (rest : List Char) :
    (s.text ++ rest).takeWhile Char.isDigit = s.digits := by
  rw [text, List.append_assoc, List.takeWhile_append_of_pos h.isDigit]
  simp [isDigit_tag]

theorem dropWhile_text (h : s.Valid) (rest : List Char) :
    (s.text ++ rest).dropWhile Char.isDigit = s.chunk.kind.tag :: (s.chunk.raw ++ rest) := by
  rw [text, List.append_assoc, List.dropWhile_append_of_pos h.isDigit]
  simp [isDigit_tag]

theorem text_ne_nil (s : Spelling) : s.text ≠ [] := by simp [text]

theorem eq_of_text_append_eq (hs : s.Valid) (ht : t.Valid) {x y : List Char}
    (h : s.text ++ x = t.text ++ y) : s = t ∧ x = y := by
  have hdigits : s.digits = t.digits := by
    rw [← takeWhile_text hs x, h, takeWhile_text ht]
  have hrest : s.chunk.kind.tag :: (s.chunk.raw ++ x) = t.chunk.kind.tag :: (t.chunk.raw ++ y) := by
    rw [← dropWhile_text hs x, h, dropWhile_text ht]
  obtain ⟨htag, htext⟩ := List.cons.inj hrest
  have hkind : some s.chunk.kind = some t.chunk.kind := by
    rw [← FragmentKind.ofTag?_tag s.chunk.kind, htag, FragmentKind.ofTag?_tag]
  have hraw : s.chunk.raw = t.chunk.raw :=
    eq_of_append_eq htext (by rw [← hs.length, hdigits, ht.length])
  rw [hraw] at htext
  refine ⟨?_, List.append_cancel_left htext⟩
  obtain ⟨digits, kind, raw⟩ := s
  obtain ⟨digits', kind', raw'⟩ := t
  simp_all

theorem chunk_eq_trimmed (h : s.Valid) : Key.chunk s.chunk.kind s.chunk.raw = s.trimmed.text := by
  rw [Key.chunk, ← h.length, toDigits_digitsValue h.digits_ne_nil h.isDigit]
  rfl

end Spelling

theorem cutUnits_length {length : Nat} {text taken rest : List Char}
    (h : cutUnits length text = .whole taken rest) : Text.units taken = length := by
  fun_induction cutUnits length text generalizing taken with
  | case1 => cases h; rfl
  | case2 => cases h
  | case3 => cases h; rfl
  | case4 length c tail _ hfits ih =>
    cases hcut : cutUnits (length - Text.unitWidth c) tail with
    | whole first last =>
      rw [hcut] at h
      simp only [Cut.push, Cut.whole.injEq] at h
      obtain ⟨rfl, rfl⟩ := h
      simp only [Text.units, ih hcut]
      omega
    | short found => rw [hcut] at h; cases h
    | split => rw [hcut] at h; cases h
  | case5 => cases h

namespace Cursor

theorem readChunk_text {s : Spelling} (h : s.Valid) (offset : Nat) (rest : List Char) :
    readChunk offset (s.text ++ rest) = .ok (s.chunk, rest) := by
  have hdigits : s.digits.isEmpty = false := by simp [h.digits_ne_nil]
  simp only [readChunk, Spelling.takeWhile_text h, Spelling.dropWhile_text h, hdigits,
    FragmentKind.ofTag?_tag, h.length, cutUnits_units, Bool.false_eq_true, if_false,
    Nat.not_le.2 (h.length ▸ h.fits)]

theorem spelling_of_readChunk {offset : Nat} {text rest : List Char} {c : Chunk}
    (h : readChunk offset text = .ok (c, rest)) :
    ∃ s : Spelling, s.Valid ∧ s.chunk = c ∧ text = s.text ++ rest := by
  simp only [readChunk] at h
  split at h
  · cases h
  next hdigits =>
  split at h
  · cases h
  next hfits =>
  split at h
  · cases h
  next tag tail htail =>
  split at h
  · cases h
  next kind hkind =>
  split at h
  next raw after hcut =>
    cases h
    refine ⟨⟨text.takeWhile Char.isDigit, kind, raw⟩, ?valid, rfl, ?text⟩
    case valid =>
      exact {
        digits_ne_nil := by simpa using hdigits
        isDigit := fun _ hdigit => List.mem_takeWhile_imp hdigit
        fits := Nat.not_le.1 hfits
        length := (cutUnits_length hcut).symm }
    case text =>
      have hsplit := List.takeWhile_append_dropWhile (p := Char.isDigit) (l := text)
      rw [htail, cutUnits_append hcut] at hsplit
      simpa [Spelling.text, FragmentKind.tag_of_ofTag? hkind] using hsplit.symm
  · cases h
  · cases h

theorem collect_spells {spellings : List Spelling} {text : List Char} (h : Spells spellings text)
    (offset : Nat) :
    (Cursor.mk offset text).collect = ⟨spellings.map Spelling.chunk, none⟩ := by
  obtain ⟨hvalid, rfl⟩ := h
  induction spellings generalizing offset with
  | nil => rw [collect]; rfl
  | cons s spellings ih =>
    have hs : s.Valid := hvalid s (by simp)
    have hne : s.text ++ spellings.flatMap Spelling.text ≠ [] := by simp [s.text_ne_nil]
    obtain ⟨later, hlater⟩ :=
      collect_of_readChunk hne (readChunk_text hs offset (spellings.flatMap Spelling.text))
    rw [List.flatMap_cons, hlater, ih later fun t ht => hvalid t (by simp [ht])]
    rfl

theorem spells_of_collect (c : Cursor) (h : c.collect.failure = none) :
    ∃ spellings, Spells spellings c.rest := by
  fun_induction collect c with
  | case1 c hend =>
    refine ⟨[], ⟨fun _ hs => absurd hs List.not_mem_nil, ?_⟩⟩
    simp only [next?] at hend
    split at hend
    next hempty => simpa using hempty
    · split at hend <;> cases hend
  | case2 => cases h
  | case3 c found later hnext rest ih =>
    obtain ⟨spellings, hspells⟩ := ih h
    simp only [next?] at hnext
    split at hnext
    · cases hnext
    split at hnext
    · cases hnext
    next first tail hread =>
      cases hnext
      obtain ⟨s, hs, -, htext⟩ := spelling_of_readChunk hread
      refine ⟨s :: spellings, ?valid, ?text⟩
      case valid =>
        rintro t (_ | ⟨_, ht⟩)
        · exact hs
        · exact hspells.valid t ht
      case text => rw [htext, List.flatMap_cons, ← hspells.text_eq]; rfl

end Cursor

theorem Spells.unique {spellings others : List Spelling} {text : List Char}
    (h : Spells spellings text) (h' : Spells others text) : spellings = others := by
  induction spellings generalizing others text with
  | nil =>
    have htext := h'.text_eq.symm.trans h.text_eq
    cases others with
    | nil => rfl
    | cons t others => simp [t.text_ne_nil] at htext
  | cons s spellings ih =>
    have htext := h.text_eq.symm.trans h'.text_eq
    cases others with
    | nil => simp [s.text_ne_nil] at htext
    | cons t others =>
      simp only [List.flatMap_cons] at htext
      obtain ⟨rfl, hrest⟩ :=
        Spelling.eq_of_text_append_eq (h.valid s (by simp)) (h'.valid t (by simp)) htext
      have hs : Spells spellings (spellings.flatMap Spelling.text) :=
        ⟨fun u hu => h.valid u (by simp [hu]), rfl⟩
      have ht : Spells others (spellings.flatMap Spelling.text) :=
        ⟨fun u hu => h'.valid u (by simp [hu]), hrest⟩
      rw [ih hs ht]

/-- A text is read without a failure exactly if it can be divided into chunks. The division is the
only one, the chunks read are its chunks in order, and writing them back drops the superfluous
zeros of the lengths and changes nothing else. -/
theorem decode_grammar (encoded : String) :
    ((decode encoded).failure = none ↔ ∃ spellings, Spells spellings encoded.toList) ∧
      ∀ spellings, Spells spellings encoded.toList →
        (∀ others, Spells others encoded.toList → others = spellings) ∧
        decode encoded = ⟨spellings.map Spelling.chunk, none⟩ ∧
        (decode encoded).chunks.flatMap (fun c => chunk c.kind c.raw) =
          spellings.flatMap fun s => s.trimmed.text := by
  have hread : ∀ spellings, Spells spellings encoded.toList →
      decode encoded = ⟨spellings.map Spelling.chunk, none⟩ := fun _ hspells =>
    Cursor.collect_spells hspells 0
  refine ⟨⟨Cursor.spells_of_collect _, ?accepted⟩, fun spellings hspells =>
    ⟨fun _ hothers => hothers.unique hspells, hread spellings hspells, ?written⟩⟩
  case accepted =>
    rintro ⟨spellings, hspells⟩
    rw [hread spellings hspells]
  case written =>
    rw [hread spellings hspells, List.flatMap_map]
    exact List.flatMap_congr fun s hs => Spelling.chunk_eq_trimmed (hspells.valid s hs)

/-- Zeros in front of a length, a content that looks like a chunk, characters of two units, and an
empty content. -/
theorem decode_grammar_zeros :
    let spellings : List Spelling :=
      [⟨"004".toList, .text, "1:_#".toList⟩, ⟨"2".toList, .number, "𝄞".toList⟩,
        ⟨"00".toList, .absent, []⟩]
    Spells spellings "004:1:_#2#𝄞00_".toList ∧
      (∀ others, Spells others "004:1:_#2#𝄞00_".toList → others = spellings) ∧
      decode "004:1:_#2#𝄞00_" = ⟨spellings.map Spelling.chunk, none⟩ ∧
      (decode "004:1:_#2#𝄞00_").chunks.flatMap (fun c => chunk c.kind c.raw) =
        "4:1:_#2#𝄞0_".toList := by
  intro spellings
  have hvalid : ∀ s ∈ spellings, s.Valid := by
    intro s hs
    simp only [spellings, List.mem_cons, List.not_mem_nil, or_false] at hs
    rcases hs with rfl | rfl | rfl <;>
      exact ⟨by decide, List.all_eq_true.1 (by decide), by decide, by decide⟩
  have hspells : Spells spellings "004:1:_#2#𝄞00_".toList := ⟨hvalid, by decide⟩
  obtain ⟨hunique, hread, hwritten⟩ := (decode_grammar "004:1:_#2#𝄞00_").2 spellings hspells
  exact ⟨hspells, hunique, hread, hwritten.trans (by decide)⟩

end KeyedRender.Key
