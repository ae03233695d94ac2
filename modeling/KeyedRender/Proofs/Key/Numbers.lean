import KeyedRender.Key.Matching
import KeyedRender.Proofs.Decimal.ReadBack
import KeyedRender.Proofs.Key.RoundTrip

/-!
# Numbers read back from keys

The text of a number has no blanks, no name and no radix in front, so it is read as a decimal, and
that decimal rounds to the number. Only the sign of zero is lost.
-/
namespace KeyedRender.Binary64

def unsignedZero (x : Binary64) : Binary64 := if x.isZero then zero else x

theorem unsignedZero_of_isZero {x : Binary64} (h : x.isZero = true) : x.unsignedZero = zero :=
  if_pos h

theorem unsignedZero_of_not_isZero {x : Binary64} (h : x.isZero = false) : x.unsignedZero = x :=
  if_neg (by simp [h])

theorem equals_iff {x y : Binary64} (hx : x.isNaN = false) (hy : y.isNaN = false) :
    x.equals y = true ↔ x.unsignedZero = y.unsignedZero := by
  have hzero : zero.isZero = true := rfl
  simp only [equals, hx, hy, Bool.or_self, Bool.false_eq_true, if_false, Bool.or_eq_true,
    Bool.and_eq_true, decide_eq_true_eq]
  cases hzx : x.isZero with
  | true =>
    cases hzy : y.isZero with
    | true => simp [unsignedZero_of_isZero hzx, unsignedZero_of_isZero hzy]
    | false =>
      have hne : ∀ z : Binary64, z.isZero = true → z ≠ y := by
        rintro z hz rfl
        rw [hz] at hzy
        cases hzy
      simp [unsignedZero_of_isZero hzx, unsignedZero_of_not_isZero hzy, hne x hzx, hne zero hzero]
  | false =>
    cases hzy : y.isZero with
    | true =>
      have hne : ∀ z : Binary64, z.isZero = true → x ≠ z := by
        rintro z hz rfl
        rw [hz] at hzx
        cases hzx
      simp [unsignedZero_of_not_isZero hzx, unsignedZero_of_isZero hzy, hne y hzy, hne zero hzero]
    | false => simp [unsignedZero_of_not_isZero hzx, unsignedZero_of_not_isZero hzy]

theorem isNaN_unsignedZero (x : Binary64) : x.unsignedZero.isNaN = x.isNaN := by
  cases hzero : x.isZero with
  | false => rw [unsignedZero_of_not_isZero hzero]
  | true =>
    rw [unsignedZero_of_isZero hzero]
    cases x with
    | finite negative position => rfl
    | nan => cases hzero
    | infinite negative => cases hzero

theorem unsignedZero_unsignedZero (x : Binary64) :
    x.unsignedZero.unsignedZero = x.unsignedZero := by
  cases hzero : x.isZero with
  | false => rw [unsignedZero_of_not_isZero hzero, unsignedZero_of_not_isZero hzero]
  | true =>
    rw [unsignedZero_of_isZero hzero]
    rfl

end KeyedRender.Binary64

namespace KeyedRender.Key

open Binary64 (magnitudes)
open Decimal (readBinary64? readSign ReadsAs)

def isNumberChar (c : Char) : Bool :=
  c.isDigit || c = '.' || c = 'e' || c = '+' || c = '-'

section Texts

variable {text : List Char}

theorem isBlank_of_isNumberChar {c : Char} (h : isNumberChar c = true) :
    Text.isBlank c = false := by
  simp only [isNumberChar, Bool.or_eq_true, decide_eq_true_eq] at h
  rcases h with (((hdigit | rfl) | rfl) | rfl) | rfl
  · have hrange := Char.isDigit_iff_toNat.1 hdigit
    have hzero : '0'.toNat = 48 := rfl
    have hnine : '9'.toNat = 57 := rfl
    simp only [Text.isBlank, Bool.or_eq_false_iff, Bool.and_eq_false_iff, decide_eq_false_iff_not]
    omega
  all_goals decide

theorem trimBlanks_of_not_blank (h : ∀ c ∈ text, Text.isBlank c = false) :
    Text.trimBlanks text = text := Text.trim_eq_self h

theorem radixOf?_eq_none (h : ∀ c ∈ text, isNumberChar c = true) : radixOf? text = none := by
  unfold radixOf?
  split
  next mark digits =>
    have hmark := h mark (by simp)
    have hne : ∀ c, isNumberChar c = false → mark ≠ c := by
      rintro c hc rfl
      rw [hmark] at hc
      cases hc
    simp [hne 'x' (by decide), hne 'X' (by decide), hne 'o' (by decide), hne 'O' (by decide),
      hne 'b' (by decide), hne 'B' (by decide)]
  · rfl

theorem readNumber_of_isNumberChar (hne : text ≠ []) (h : ∀ c ∈ text, isNumberChar c = true) :
    readNumber text = (readBinary64? text).getD .nan := by
  have htrim := trimBlanks_of_not_blank fun c hc => isBlank_of_isNumberChar (h c hc)
  have hempty : text.isEmpty = false := by simpa using hne
  have hname : ∀ name : List Char, 'I' ∈ name → text ≠ name := by
    rintro name hmem rfl
    exact absurd (h 'I' hmem) (by decide)
  simp only [readNumber, htrim, hempty, hname "Infinity".toList (by decide),
    hname "+Infinity".toList (by decide), hname "-Infinity".toList (by decide),
    radixOf?_eq_none h, decide_false, Bool.or_self, Bool.false_eq_true, if_false]

end Texts

section Notations

variable {d : Decimal} {digits : List Char} {lead : Int}

theorem isNumberChar_of_isDigit {c : Char} (h : c.isDigit = true) : isNumberChar c = true := by
  simp [isNumberChar, h]

theorem isNumberChar_positional (h : ∀ c ∈ digits, c.isDigit = true) :
    ∀ c ∈ Decimal.positional digits lead, isNumberChar c = true := by
  have hzeros : ∀ k, ∀ c ∈ List.replicate k '0', isNumberChar c = true :=
    fun k c hc => isNumberChar_of_isDigit (Decimal.isDigit_zeros k c hc)
  have hdigits : ∀ c ∈ digits, isNumberChar c = true :=
    fun c hc => isNumberChar_of_isDigit (h c hc)
  intro c hc
  unfold Decimal.positional at hc
  split at hc
  · rcases hc with _ | ⟨_, _ | ⟨_, hc⟩⟩
    · decide
    · decide
    · exact (List.mem_append.1 hc).elim (hzeros _ c) (hdigits c)
  · simp only at hc
    split at hc
    · exact (List.mem_append.1 hc).elim (hdigits c) (hzeros _ c)
    · rcases List.mem_append.1 hc with hc | _ | ⟨_, hc⟩
      · exact hdigits c (List.mem_of_mem_take hc)
      · decide
      · exact hdigits c (List.mem_of_mem_drop hc)

theorem isNumberChar_scientific (h : ∀ c ∈ digits, c.isDigit = true) :
    ∀ c ∈ Decimal.scientific digits lead ['+'], isNumberChar c = true := by
  have hdigits : ∀ c ∈ digits, isNumberChar c = true :=
    fun c hc => isNumberChar_of_isDigit (h c hc)
  have hexponent : ∀ c ∈ Decimal.exponentText lead, isNumberChar c = true := by
    intro c hc
    have hlead : ∀ c ∈ Nat.toDigits 10 lead.natAbs, isNumberChar c = true := fun c hc =>
      isNumberChar_of_isDigit (Nat.isDigit_of_mem_toDigits (by decide) (by decide) hc)
    unfold Decimal.exponentText at hc
    rcases hc with _ | ⟨_, hc⟩
    · decide
    split at hc <;> rcases hc with _ | ⟨_, hc⟩
    · decide
    · exact hlead c hc
    · decide
    · exact hlead c hc
  intro c hc
  rcases List.mem_append.1 hc with hc | hc
  · split at hc
    · rcases hc with _ | ⟨_, hc⟩
      · decide
      · cases hc
    · exact hdigits c hc
    · rcases hc with _ | ⟨_, _ | ⟨_, hc⟩⟩
      · exact hdigits c List.mem_cons_self
      · decide
      · exact hdigits c (List.mem_cons_of_mem _ hc)
  · exact hexponent c hc

theorem isDigit_head_positional (hne : digits ≠ []) (h : ∀ c ∈ digits, c.isDigit = true) :
    ∃ c rest, Decimal.positional digits lead = c :: rest ∧ c.isDigit = true := by
  obtain ⟨first, more, rfl⟩ := List.exists_cons_of_ne_nil hne
  have hfirst := h first List.mem_cons_self
  unfold Decimal.positional
  split
  · exact ⟨'0', _, rfl, by decide⟩
  · simp only
    split
    · exact ⟨first, _, rfl, hfirst⟩
    · exact ⟨first, _, rfl, hfirst⟩

theorem isDigit_head_scientific (hne : digits ≠ []) (h : ∀ c ∈ digits, c.isDigit = true) :
    ∃ c rest, Decimal.scientific digits lead ['+'] = c :: rest ∧ c.isDigit = true := by
  obtain ⟨first, more, rfl⟩ := List.exists_cons_of_ne_nil hne
  have hfirst := h first List.mem_cons_self
  cases more with
  | nil => exact ⟨first, _, rfl, hfirst⟩
  | cons second more => exact ⟨first, _, rfl, hfirst⟩

end Notations

theorem magnitudeText_spec {position : Nat} (hpos : 0 < position) (hlt : position < magnitudes) :
    (∃ c rest, magnitudeText position = c :: rest ∧ c.isDigit = true) ∧
      (∀ c ∈ magnitudeText position, isNumberChar c = true) ∧
      ReadsAs (magnitudeText position) position := by
  have hposition := Decimal.position_shortest .up hpos hlt
  unfold magnitudeText
  simp only
  generalize Decimal.shortest .up position = d at hposition ⊢
  subst hposition
  have hwritten := Decimal.written_significant (Decimal.coefficient_ne_zero hpos)
  split
  · exact ⟨isDigit_head_positional hwritten.ne_nil hwritten.isDigit,
      isNumberChar_positional hwritten.isDigit, Decimal.readsAs_positional hwritten⟩
  · exact ⟨isDigit_head_scientific hwritten.ne_nil hwritten.isDigit,
      isNumberChar_scientific hwritten.isDigit, Decimal.readsAs_scientific hwritten⟩

theorem readNumber_magnitudeText (negative : Bool) {position : Nat} (hpos : 0 < position)
    (hlt : position < magnitudes) :
    readNumber ((if negative then ['-'] else []) ++ magnitudeText position) =
      .finite negative ⟨position, hlt⟩ := by
  obtain ⟨hdigit, hchars, hreads⟩ := magnitudeText_spec hpos hlt
  have hsign := Decimal.readSign_signed negative hdigit
  have hnumber : ∀ d ∈ (if negative then ['-'] else []) ++ magnitudeText position,
      isNumberChar d = true := by
    intro d hd
    rcases List.mem_append.1 hd with hd | hd
    · cases negative with
      | true => simp only [if_true, List.mem_singleton] at hd; subst hd; decide
      | false => simp at hd
    · exact hchars d hd
  obtain ⟨c, rest, htext, -⟩ := hdigit
  rw [readNumber_of_isNumberChar (by simp [htext]) hnumber, hreads.readBinary64? hsign,
    Option.getD_some, Binary64.ofPosition, dif_pos hlt]

/-- The text of a number is read as the number. -/
theorem readNumber_numberText_eq (n : Binary64) : readNumber (numberText n) = n.unsignedZero := by
  cases n with
  | nan => rfl
  | infinite negative => cases negative <;> rfl
  | finite negative position =>
    rw [numberText_finite]
    split
    next hzero =>
      have hread : readNumber ['0'] = .zero := by decide +kernel
      rw [Binary64.unsignedZero_of_isZero (by simp [Binary64.isZero, hzero]), hread]
    next hne =>
      rw [Binary64.unsignedZero_of_not_isZero (by simp [Binary64.isZero, hne])]
      exact readNumber_magnitudeText negative (Nat.pos_of_ne_zero hne) position.isLt

theorem numberText_unsignedZero (n : Binary64) : numberText n.unsignedZero = numberText n := by
  cases hzero : n.isZero with
  | false => rw [Binary64.unsignedZero_of_not_isZero hzero]
  | true =>
    rw [Binary64.unsignedZero_of_isZero hzero]
    cases n with
    | nan => cases hzero
    | infinite negative => cases hzero
    | finite negative position =>
      have hposition : position.val = 0 := by simpa [Binary64.isZero] using hzero
      rw [numberText_finite, if_pos hposition]
      rfl

theorem numberText_eq_iff {m n : Binary64} :
    numberText m = numberText n ↔ m.unsignedZero = n.unsignedZero := by
  constructor
  · intro h
    rw [← readNumber_numberText_eq m, h, readNumber_numberText_eq]
  · intro h
    rw [← numberText_unsignedZero m, h, numberText_unsignedZero]

theorem encode_number_eq_iff {m n : Binary64} :
    encode (.number m) = encode (.number n) ↔ numberText m = numberText n := by
  constructor
  · intro h
    have htexts := congrArg String.toList h
    simp only [toList_encode, Fragment.encoded] at htexts
    have hchunks : chunk .number (numberText m) ++ [] = chunk .number (numberText n) ++ [] := by
      rw [List.append_nil, List.append_nil]
      exact htexts
    exact (chunk_delimited hchunks).2
  · exact fun h => encode_eq_of_identity (by simp [Fragment.identity, Fragment.kind,
      Fragment.content, h])

theorem decode_encode_number (n : Binary64) :
    decode (encode (.number n)) = ⟨[⟨.number, numberText n⟩], none⟩ := by
  have hfits : Text.units (numberText n) < Text.words64 :=
    Fragment.units_content_lt (f := .number n) (by simp)
  obtain ⟨later, hlater⟩ := Cursor.collect_chunk 0 .number [] hfits
  have htext : Cursor.start (encode (.number n)) = ⟨0, chunk .number (numberText n) ++ []⟩ := by
    rw [Cursor.start, toList_encode, List.append_nil]
    rfl
  have hend : (Cursor.mk later []).collect = ⟨[], none⟩ := by
    rw [Cursor.collect]
    rfl
  rw [decode, htext, hlater, hend]

/-- Numbers survive their text form. The text of a number is read as the number, but as the positive
zero for both zeros; a key with a number is read back as that one number; numbers have the same key
exactly if they are equal; and a key with the text of a number matches the number, whichever of both
comes first. What is not a number equals nothing, but its text is read back, too. -/
theorem numbers_survive (n : Binary64) :
    readNumber (numberText n) = n.unsignedZero ∧
      decode (encode (.number n)) = ⟨[⟨.number, numberText n⟩], none⟩ ∧
      (Chunk.mk .number (numberText n)).fragment = .number n.unsignedZero ∧
      (n.isNaN = false →
        (∀ m : Binary64, m.isNaN = false →
          (encode (.number m) = encode (.number n) ↔ m.equals n = true)) ∧
        let text := String.ofList (numberText n)
        looselyEqual (.number n) (.text text) = true ∧
          looselyEqual (.text text) (.number n) = true ∧
          isMatching (.number n) (.text text) = true ∧
          isMatching (.text text) (.number n) = true) := by
  have hread := readNumber_numberText_eq n
  refine ⟨hread, decode_encode_number n, by rw [Chunk.fragment, hread], fun hnumber => ⟨?_, ?_⟩⟩
  · intro m hm
    rw [encode_number_eq_iff, numberText_eq_iff, Binary64.equals_iff hm hnumber]
  · have hloosely : looselyEqual (.number n) (.text (String.ofList (numberText n))) = true := by
      rw [looselyEqual, String.toList_ofList, hread,
        Binary64.equals_iff (by rw [Binary64.isNaN_unsignedZero, hnumber]) hnumber,
        Binary64.unsignedZero_unsignedZero]
    exact ⟨hloosely, (looselyEqual_comm _ _).trans hloosely, hloosely,
      (looselyEqual_comm _ _).trans hloosely⟩

/-- A number with an exponent, and the negative zero. -/
theorem numbers_survive_scientific :
    let large : Binary64 := .ofInt (-1230000000000000000000)
    encode (.number large) = "9#-1.23e+21" ∧
      decode "9#-1.23e+21" = ⟨[⟨.number, "-1.23e+21".toList⟩], none⟩ ∧
      looselyEqual (.text "-1.23e+21") (.number large) = true ∧
      readNumber (numberText (.finite true ⟨0, by decide⟩)) = .zero := by
  intro large
  have htext : numberText large = "-1.23e+21".toList := by decide +kernel
  have hkey : encode (.number large) = "9#-1.23e+21" := by
    rw [encode, Fragment.encoded, Fragment.content, htext]
    decide +kernel
  obtain ⟨-, hdecode, -, hmatch⟩ := numbers_survive large
  obtain ⟨-, -, hloosely, -⟩ := hmatch (by decide +kernel)
  rw [hkey, htext] at hdecode
  rw [htext, String.ofList_toList] at hloosely
  exact ⟨hkey, hdecode, hloosely, (numbers_survive _).1⟩

end KeyedRender.Key
