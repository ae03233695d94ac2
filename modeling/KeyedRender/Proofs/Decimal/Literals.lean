import KeyedRender.Proofs.Decimal.ReadBack
import KeyedRender.Proofs.Text.Numerals

/-!
# Decimal literals

The texts that are read as decimals, said without reading them: an optional sign, digits with an
optional point before, among or behind them, and an optional exponent with a sign of its own.
-/
namespace KeyedRender.Decimal

open Text (Numeral IsDigitOf)

inductive Sign : Bool → List Char → Prop
  | none : Sign false []
  | plus : Sign false ['+']
  | minus : Sign true ['-']

inductive Exponent : List Char → Int → Prop
  | none : Exponent [] 0
  | marked {mark : Char} {negative : Bool} {sign digits : List Char} {n : Nat} :
      mark = 'e' ∨ mark = 'E' → Sign negative sign → Numeral 10 digits n →
      Exponent (mark :: (sign ++ digits)) (if negative then -(n : Int) else n)

/-- A literal without a sign, and the decimal that it stands for. -/
inductive Literal : List Char → Decimal → Prop
  | whole {digits rest : List Char} {n : Nat} {exponent : Int} : Numeral 10 digits n →
      Exponent rest exponent → Literal (digits ++ rest) ⟨n, exponent⟩
  | point {before behind rest : List Char} {n : Nat} {exponent : Int} :
      Numeral 10 (before ++ behind) n → Exponent rest exponent →
      Literal (before ++ '.' :: (behind ++ rest)) ⟨n, exponent - behind.length⟩

section Digits

variable {digits : List Char} {n : Nat}

theorem isDigitOf_ten_iff {c : Char} {value : Nat} :
    IsDigitOf 10 value c ↔ c.isDigit = true ∧ c.toNat - '0'.toNat = value := by
  have hzero : '0'.toNat = 48 := rfl
  have hnine : '9'.toNat = 57 := rfl
  rw [Text.isDigitOf_iff (by decide), Char.isDigit_iff_toNat]
  omega

theorem numeral_ten_iff : Numeral 10 digits n ↔
    digits ≠ [] ∧ (∀ c ∈ digits, c.isDigit = true) ∧ digitsValue digits = n := by
  constructor
  · intro h
    induction h with
    | @digit c value hc =>
      obtain ⟨hdigit, rfl⟩ := isDigitOf_ten_iff.1 hc
      exact ⟨by simp, by simpa using hdigit, (digitsValue_concat [] c).trans (Nat.zero_add _)⟩
    | @concat digits c number value _ hc ih =>
      obtain ⟨hdigit, rfl⟩ := isDigitOf_ten_iff.1 hc
      obtain ⟨-, hdigits, rfl⟩ := ih
      refine ⟨by simp, fun d hd => ?_, by rw [digitsValue_concat, Nat.mul_comm]⟩
      rcases List.mem_append.1 hd with hd | hd
      · exact hdigits d hd
      · rwa [List.mem_singleton.1 hd]
  · rintro ⟨hne, hdigits, rfl⟩
    induction digits using List.reverseRecOn with
    | nil => exact absurd rfl hne
    | append_singleton digits c ih =>
      have hc : IsDigitOf 10 (c.toNat - '0'.toNat) c :=
        isDigitOf_ten_iff.2 ⟨hdigits c (by simp), rfl⟩
      rw [digitsValue_concat, Nat.mul_comm]
      cases digits with
      | nil => exact (Nat.zero_mul 10).symm ▸ (Nat.zero_add _).symm ▸ .digit hc
      | cons d rest =>
        exact .concat (ih (by simp) fun e he => hdigits e (List.mem_append_left _ he)) hc

end Digits

section Reading

variable {text body rest : List Char} {negative : Bool} {exponent : Int} {d : Decimal}

theorem sign_of_readSign (text : List Char) :
    ∃ sign, text = sign ++ (readSign text).2 ∧ Sign (readSign text).1 sign := by
  unfold readSign
  split
  · exact ⟨['-'], rfl, .minus⟩
  · exact ⟨['+'], rfl, .plus⟩
  · exact ⟨[], rfl, .none⟩

theorem Sign.readSign {sign : List Char} (h : Sign negative sign)
    (hbody : ∀ c ∈ body.head?, c ≠ '+' ∧ c ≠ '-') : readSign (sign ++ body) = (negative, body) := by
  cases h with
  | plus => rfl
  | minus => rfl
  | none =>
    rw [List.nil_append]
    unfold Decimal.readSign
    split
    · exact absurd rfl (hbody '-' rfl).2
    · exact absurd rfl (hbody '+' rfl).1
    · rfl

theorem ne_sign_of_isDigit {c : Char} (h : c.isDigit = true) : c ≠ '+' ∧ c ≠ '-' := by
  constructor <;> rintro rfl <;> cases h

theorem readExponent?_eq_some_iff :
    readExponent? rest = some exponent ↔ Exponent rest exponent := by
  constructor
  · intro h
    cases rest with
    | nil =>
      cases h
      exact .none
    | cons mark rest =>
      obtain ⟨sign, hrest, hsign⟩ := sign_of_readSign rest
      simp only [readExponent?] at h
      generalize readSign rest = signed at hrest hsign h
      split at h
      · next hread =>
        simp only [Bool.and_eq_true, Bool.or_eq_true, decide_eq_true_eq, Bool.not_eq_true',
          List.isEmpty_eq_false_iff, List.all_eq_true] at hread
        cases h
        rw [hrest]
        exact .marked hread.1.1 hsign (numeral_ten_iff.2 ⟨hread.1.2, hread.2, rfl⟩)
      · cases h
  · intro h
    cases h with
    | none => rfl
    | @marked mark negative sign digits n hmark hsign hdigits =>
      obtain ⟨hne, hall, rfl⟩ := numeral_ten_iff.1 hdigits
      have hread := hsign.readSign fun c hc =>
        ne_sign_of_isDigit (hall c (List.mem_of_mem_head? hc))
      have hcond : ((decide (mark = 'e') || decide (mark = 'E')) && !digits.isEmpty &&
          digits.all Char.isDigit) = true := by
        simp [hmark, hne, List.all_eq_true.2 hall]
      simp only [readExponent?, hread, hcond, if_true]

theorem Exponent.head (h : Exponent rest exponent) :
    ∀ c ∈ rest.head?, c.isDigit = false ∧ c ≠ '.' := by
  cases h with
  | none => simp
  | marked hmark _ _ =>
    rintro c ⟨⟩
    rcases hmark with rfl | rfl <;> decide

theorem literal_iff : Literal body d ↔ ∃ whole fraction rest exponent,
    readMantissa body = (whole, fraction, rest) ∧ (whole.isEmpty && fraction.isEmpty) = false ∧
      readExponent? rest = some exponent ∧
      d = ⟨digitsValue (whole ++ fraction), exponent - fraction.length⟩ := by
  constructor
  · intro h
    cases h with
    | @whole digits rest n exponent hdigits hexponent =>
      obtain ⟨hne, hall, rfl⟩ := numeral_ten_iff.1 hdigits
      have hread := readMantissa_whole hall (fun c hc => (hexponent.head c hc).1)
        fun hpoint => (hexponent.head '.' hpoint).2 rfl
      exact ⟨_, _, _, exponent, hread, by simpa using hne, readExponent?_eq_some_iff.2 hexponent,
        by simp⟩
    | @point before behind rest n exponent hdigits hexponent =>
      obtain ⟨hne, hall, rfl⟩ := numeral_ten_iff.1 hdigits
      have hread := readMantissa_point (fun c hc => hall c (List.mem_append_left _ hc))
        (fun c hc => hall c (List.mem_append_right _ hc)) fun c hc => (hexponent.head c hc).1
      refine ⟨_, _, _, exponent, hread, ?_, readExponent?_eq_some_iff.2 hexponent, rfl⟩
      rw [← Bool.not_eq_true]
      simpa using hne
  · rintro ⟨whole, fraction, rest, exponent, hread, hne, hexponent, rfl⟩
    have hexponent := readExponent?_eq_some_iff.1 hexponent
    have hdigits : ∀ {text : List Char}, ∀ c ∈ text.takeWhile Char.isDigit, c.isDigit = true :=
      fun c hc => List.mem_takeWhile_imp hc
    have hsplit := List.takeWhile_append_dropWhile (p := Char.isDigit) (l := body)
    unfold readMantissa at hread
    simp only at hread
    split at hread
    · next tail htail =>
      cases hread
      have htail' := List.takeWhile_append_dropWhile (p := Char.isDigit) (l := tail)
      rw [htail, ← htail'] at hsplit
      have hpoint := Literal.point (numeral_ten_iff.2 ⟨by simpa using hne, fun c hc =>
        (List.mem_append.1 hc).elim (hdigits c) (hdigits c), rfl⟩) hexponent
      rwa [hsplit] at hpoint
    · cases hread
      have hwhole := Literal.whole (numeral_ten_iff.2 ⟨by simpa using hne, hdigits, rfl⟩) hexponent
      rw [hsplit] at hwhole
      simpa using hwhole

theorem Literal.head (h : Literal body d) : ∀ c ∈ body.head?, c ≠ '+' ∧ c ≠ '-' := by
  have hdigit : ∀ {text more : List Char}, (∀ c ∈ text, c.isDigit = true) → text ≠ [] →
      ∀ c ∈ (text ++ more).head?, c ≠ '+' ∧ c ≠ '-' := by
    intro text more htext hne c hc
    obtain ⟨first, rest, rfl⟩ := List.exists_cons_of_ne_nil hne
    cases hc
    exact ne_sign_of_isDigit (htext _ List.mem_cons_self)
  cases h with
  | whole hdigits _ =>
    obtain ⟨hne, hall, -⟩ := numeral_ten_iff.1 hdigits
    exact hdigit hall hne
  | @point before _ _ _ _ hdigits _ =>
    obtain ⟨-, hall, -⟩ := numeral_ten_iff.1 hdigits
    cases before with
    | nil => simp
    | cons c rest => exact hdigit (fun d hd => hall d (List.mem_append_left _ hd)) (by simp)

theorem read?_eq_some_iff : read? text = some (negative, d) ↔
    ∃ sign body, text = sign ++ body ∧ Sign negative sign ∧ Literal body d := by
  constructor
  · intro h
    obtain ⟨sign, htext, hsign⟩ := sign_of_readSign text
    unfold read? at h
    generalize readSign text = signed at htext hsign h
    simp only at h
    split at h
    · cases h
    · next hsome =>
      obtain ⟨exponent, hexponent, heq⟩ := Option.map_eq_some_iff.1 h
      cases heq
      exact ⟨sign, _, htext, hsign, literal_iff.2
        ⟨_, _, _, exponent, rfl, Bool.eq_false_iff.2 hsome, hexponent, rfl⟩⟩
  · rintro ⟨sign, body, rfl, hsign, hbody⟩
    obtain ⟨whole, fraction, rest, exponent, hread, hsome, hexponent, rfl⟩ := literal_iff.1 hbody
    simp only [read?, hsign.readSign hbody.head, hread, hsome, Bool.false_eq_true, if_false,
      hexponent, Option.map_some]

end Reading

end KeyedRender.Decimal
