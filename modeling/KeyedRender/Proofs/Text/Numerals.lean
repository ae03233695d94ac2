import KeyedRender.Text.Basic
import Mathlib.Data.List.Induction
import Mathlib.Tactic.IntervalCases

/-!
# Numerals in a radix

What the digits of a radix stand for, said without reading them. Digits past nine are letters in
either case. Reading takes just the numerals, with an optional plus sign in front, whose number is
below the bound.
-/
namespace KeyedRender.Text

structure IsDigitOf (radix value : Nat) (c : Char) : Prop where
  lt : value < radix
  written : c = Nat.digitChar value ∨ c = (Nat.digitChar value).toUpper

/-- One or more digits, and the number that they stand for. -/
inductive Numeral (radix : Nat) : List Char → Nat → Prop
  | digit {c : Char} {value : Nat} : IsDigitOf radix value c → Numeral radix [c] value
  | concat {digits : List Char} {c : Char} {number value : Nat} :
      Numeral radix digits number → IsDigitOf radix value c →
      Numeral radix (digits ++ [c]) (number * radix + value)

section Digits

variable {radix value : Nat} {c : Char}

theorem toNat_digitChar_letter (hlow : 10 ≤ value) (hhigh : value < 16) :
    (Nat.digitChar value).toNat = 'a'.toNat + (value - 10) ∧
      (Nat.digitChar value).toUpper.toNat = 'A'.toNat + (value - 10) := by
  interval_cases value <;> decide

theorem toUpper_digitChar_of_lt_ten (h : value < 10) :
    (Nat.digitChar value).toUpper = Nat.digitChar value := by
  interval_cases value <;> decide

theorem isDigitOf_iff (hradix : radix ≤ 16) : IsDigitOf radix value c ↔ value < radix ∧
    (value < 10 ∧ c.toNat = '0'.toNat + value ∨
      10 ≤ value ∧ (c.toNat = 'a'.toNat + (value - 10) ∨ c.toNat = 'A'.toNat + (value - 10))) := by
  have hten : value < 10 → (Nat.digitChar value).toNat = '0'.toNat + value := fun h => by
    rw [Nat.toNat_digitChar_of_lt_ten h]
    rfl
  constructor
  · rintro ⟨hlt, hc⟩
    refine ⟨hlt, ?_⟩
    rcases Nat.lt_or_ge value 10 with hsmall | hlarge
    · rw [toUpper_digitChar_of_lt_ten hsmall, or_self] at hc
      exact .inl ⟨hsmall, hc ▸ hten hsmall⟩
    · obtain ⟨hlower, hupper⟩ := toNat_digitChar_letter hlarge (by omega)
      exact .inr ⟨hlarge, hc.imp (fun h => (congrArg Char.toNat h).trans hlower)
        fun h => (congrArg Char.toNat h).trans hupper⟩
  · rintro ⟨hlt, ⟨hsmall, hc⟩ | ⟨hlarge, hc⟩⟩
    · exact ⟨hlt, .inl (Char.toNat_inj.1 (hc.trans (hten hsmall).symm))⟩
    · obtain ⟨hlower, hupper⟩ := toNat_digitChar_letter hlarge (by omega)
      exact ⟨hlt, hc.imp (fun h => Char.toNat_inj.1 (h.trans hlower.symm))
        fun h => Char.toNat_inj.1 (h.trans hupper.symm)⟩

theorem digitValue?_eq_some_iff (hradix : radix ≤ 16) :
    digitValue? radix c = some value ↔ IsDigitOf radix value c := by
  have hzero : '0'.toNat = 48 := rfl
  have hnine : '9'.toNat = 57 := rfl
  have ha : 'a'.toNat = 97 := rfl
  have hz : 'z'.toNat = 122 := rfl
  have hA : 'A'.toNat = 65 := rfl
  have hZ : 'Z'.toNat = 90 := rfl
  rw [isDigitOf_iff hradix, digitValue?, Option.filter_eq_some_iff, decide_eq_true_eq]
  split
  · simp only [Option.some.injEq]
    omega
  split
  · simp only [Option.some.injEq]
    omega
  split
  · simp only [Option.some.injEq]
    omega
  · simp only [reduceCtorEq, false_and, false_iff]
    omega

end Digits

section Reading

variable {radix number : Nat} {digits : List Char}

theorem digitsIn?_concat (radix : Nat) (digits : List Char) (c : Char) :
    digitsIn? radix (digits ++ [c]) = (digitsIn? radix digits).bind fun n =>
      (digitValue? radix c).map (n * radix + ·) := by
  rw [digitsIn?, List.foldl_append]
  rfl

theorem Numeral.ne_nil (h : Numeral radix digits number) : digits ≠ [] := by
  cases h <;> simp

theorem digitsIn?_eq_some_iff (hradix : radix ≤ 16) (hne : digits ≠ []) :
    digitsIn? radix digits = some number ↔ Numeral radix digits number := by
  have hsingle : ∀ c, digitsIn? radix [c] = digitValue? radix c := fun c => by
    simp [digitsIn?]
  constructor
  · intro h
    induction digits using List.reverseRecOn generalizing number with
    | nil => exact absurd rfl hne
    | append_singleton digits c ih =>
      rcases List.eq_nil_or_concat digits with rfl | ⟨_, _, hdigits⟩
      · rw [List.nil_append, hsingle, digitValue?_eq_some_iff hradix] at h
        exact .digit h
      · rw [digitsIn?_concat] at h
        obtain ⟨n, hn, h⟩ := Option.bind_eq_some_iff.1 h
        obtain ⟨value, hvalue, rfl⟩ := Option.map_eq_some_iff.1 h
        exact .concat (ih (by simp [hdigits]) hn) ((digitValue?_eq_some_iff hradix).1 hvalue)
  · intro h
    induction h with
    | digit hc => rw [hsingle, digitValue?_eq_some_iff hradix]; exact hc
    | concat hdigits hc ih =>
      rw [digitsIn?_concat, ih hdigits.ne_nil, Option.bind_some,
        (digitValue?_eq_some_iff hradix).2 hc]
      rfl

theorem Numeral.unique {other : Nat} (hradix : radix ≤ 16) (h : Numeral radix digits number)
    (h' : Numeral radix digits other) : number = other := by
  have hread := (digitsIn?_eq_some_iff hradix h.ne_nil).2 h
  exact Option.some.inj (hread.symm.trans ((digitsIn?_eq_some_iff hradix h.ne_nil).2 h'))

theorem Numeral.isDigitOf {c : Char} (h : Numeral radix digits number) (hc : c ∈ digits) :
    ∃ value, IsDigitOf radix value c := by
  induction h with
  | digit hd => exact ⟨_, List.mem_singleton.1 hc ▸ hd⟩
  | concat _ hd ih =>
    rcases List.mem_append.1 hc with hc | hc
    · exact ih hc
    · exact ⟨_, List.mem_singleton.1 hc ▸ hd⟩

theorem Numeral.notMem {c : Char} (hradix : radix ≤ 16) (h : Numeral radix digits number)
    (hc : digitValue? 16 c = none) : c ∉ digits := by
  intro hmem
  obtain ⟨value, hlt, hwritten⟩ := h.isDigitOf hmem
  have hread : IsDigitOf 16 value c := ⟨Nat.lt_of_lt_of_le hlt hradix, hwritten⟩
  rw [← digitValue?_eq_some_iff (Nat.le_refl _), hc] at hread
  cases hread

theorem wholeNumber?_eq_some_iff {bound : Nat} {text : List Char} (hradix : radix ≤ 16) :
    wholeNumber? radix bound text = some number ↔
      (∃ sign ∈ [[], ['+']], ∃ digits, text = sign ++ digits ∧ Numeral radix digits number) ∧
        number < bound := by
  have hread : ∀ digits : List Char, (if digits.isEmpty then none
      else (digitsIn? radix digits).filter (· < bound)) = some number ↔
        Numeral radix digits number ∧ number < bound := by
    intro digits
    cases digits with
    | nil => simpa using fun h : Numeral radix [] number => absurd rfl h.ne_nil
    | cons c rest =>
      simp [Option.filter_eq_some_iff, digitsIn?_eq_some_iff hradix]
  rw [wholeNumber?, hread]
  refine and_congr_left fun _ => ⟨fun h => ?_, ?_⟩
  · cases text with
    | nil => exact ⟨[], by simp, _, rfl, h⟩
    | cons c rest =>
      by_cases hc : c = '+'
      · subst hc
        exact ⟨['+'], by simp, rest, rfl, h⟩
      · have hunsigned : unsigned (c :: rest) = c :: rest := by
          unfold unsigned
          split
          · next heq => cases heq; exact absurd rfl hc
          · rfl
        exact ⟨[], by simp, _, rfl, hunsigned ▸ h⟩
  · rintro ⟨sign, hsign, digits, rfl, h⟩
    rcases List.mem_cons.1 hsign with rfl | hsign
    · have hplus := h.notMem (c := '+') hradix (by decide)
      have hunsigned : unsigned digits = digits := by
        unfold unsigned
        split
        · exact absurd List.mem_cons_self hplus
        · rfl
      rwa [List.nil_append, hunsigned]
    · rw [List.mem_singleton.1 hsign]
      exact h

end Reading

end KeyedRender.Text
