import KeyedRender.Proofs.Decimal.Rounding
import KeyedRender.Proofs.Text.Runs

/-!
# Decimals read back from their text

Digits around a point and digits with an exponent are read as a decimal that rounds to the same
position as the one that was written. Zeros that the text leaves out or fills in change the
coefficient and the scale, but not the value.
-/
namespace KeyedRender.Decimal

section Digits

variable {digits : List Char}

theorem digitsValue_append_zeros (digits : List Char) (k : Nat) :
    digitsValue (digits ++ List.replicate k '0') = digitsValue digits * 10 ^ k := by
  induction k with
  | zero => simp
  | succ k ih =>
    rw [List.replicate_succ', ← List.append_assoc, digitsValue_concat, ih, Nat.sub_self, pow_succ]
    ring

theorem digitsValue_zeros_append (k : Nat) (digits : List Char) :
    digitsValue (List.replicate k '0' ++ digits) = digitsValue digits := by
  have hzeros : digitsValue (List.replicate k '0') = 0 := by
    have hnone : digitsValue [] = 0 := rfl
    rw [← List.nil_append (List.replicate k '0'), digitsValue_append_zeros, hnone, Nat.zero_mul]
  rw [digitsValue, Nat.ofDigitChars_append, ← digitsValue, hzeros]
  rfl

theorem exists_toDigits_eq (d : Decimal) :
    ∃ k, Nat.toDigits 10 d.coefficient = significant d ++ List.replicate k '0' := by
  obtain ⟨k, hzeros⟩ : ∃ k, (Nat.toDigits 10 d.coefficient).reverse.takeWhile (· == '0') =
      List.replicate k '0' :=
    ⟨_, List.eq_replicate_of_mem fun c hc => by simpa using List.mem_takeWhile_imp hc⟩
  have hsplit := List.takeWhile_append_dropWhile (p := (· == '0'))
    (l := (Nat.toDigits 10 d.coefficient).reverse)
  rw [hzeros] at hsplit
  have hreverse := congrArg List.reverse hsplit
  rw [List.reverse_append, List.reverse_reverse, List.reverse_replicate] at hreverse
  exact ⟨k, hreverse.symm⟩

structure Written (d : Decimal) (digits : List Char) (lead : Int) : Prop where
  ne_nil : digits ≠ []
  isDigit : ∀ c ∈ digits, c.isDigit = true
  position : position ⟨digitsValue digits, lead + 1 - digits.length⟩ = d.position

theorem written_significant {d : Decimal} (h : d.coefficient ≠ 0) :
    Written d (significant d) (leading d) := by
  obtain ⟨k, hdigits⟩ := exists_toDigits_eq d
  have hvalue : digitsValue (significant d) * 10 ^ k = d.coefficient := by
    rw [← digitsValue_append_zeros, ← hdigits]
    exact Nat.ofDigitChars_ten_toDigits
  have hcount : digitCount d.coefficient = (significant d).length + k := by
    rw [digitCount, hdigits, List.length_append, List.length_replicate]
  refine ⟨fun hnil => h ?_, fun c hc => ?_, ?_⟩
  · rw [← hvalue, hnil]
    exact Nat.zero_mul _
  · have hmem : c ∈ Nat.toDigits 10 d.coefficient := hdigits ▸ List.mem_append_left _ hc
    exact Nat.isDigit_of_mem_toDigits (by decide) (by decide) hmem
  · have hscale : leading d + 1 - (significant d).length = d.scale + k := by
      rw [leading, hcount]
      omega
    rw [hscale, ← position_mul_pow, hvalue]

end Digits

/-- A text without a sign that is read as a decimal of a position. -/
def ReadsAs (body : List Char) (p : Nat) : Prop :=
  ∃ whole fraction rest exponent, readMantissa body = (whole, fraction, rest) ∧
    whole ≠ [] ∧ readExponent? rest = some exponent ∧
    position ⟨digitsValue (whole ++ fraction), exponent - fraction.length⟩ = p

theorem ReadsAs.readBinary64? {text body : List Char} {negative : Bool} {p : Nat}
    (h : ReadsAs body p) (hsign : readSign text = (negative, body)) :
    readBinary64? text = some (.ofPosition negative p) := by
  obtain ⟨whole, fraction, rest, exponent, hmantissa, hwhole, hexponent, hposition⟩ := h
  have hsome : (whole.isEmpty && fraction.isEmpty) = false := by simp [hwhole]
  simp only [Decimal.readBinary64?, read?, hsign, hmantissa, hsome, Bool.false_eq_true, if_false,
    hexponent, Option.map_some, toBinary64_eq, hposition]

theorem readSign_signed (negative : Bool) {body : List Char}
    (h : ∃ c rest, body = c :: rest ∧ c.isDigit = true) :
    readSign ((if negative then ['-'] else []) ++ body) = (negative, body) := by
  obtain ⟨c, rest, rfl, hdigit⟩ := h
  cases negative with
  | true => rfl
  | false =>
    simp only [Bool.false_eq_true, if_false, List.nil_append, readSign]
    split
    next heq => cases heq; cases hdigit
    next heq => cases heq; cases hdigit
    · rfl

section Mantissa

variable {whole fraction rest : List Char}

theorem readMantissa_point (hwhole : ∀ c ∈ whole, c.isDigit = true)
    (hfraction : ∀ c ∈ fraction, c.isDigit = true) (hrest : ∀ c ∈ rest.head?, c.isDigit = false) :
    readMantissa (whole ++ '.' :: (fraction ++ rest)) = (whole, fraction, rest) := by
  have hpoint : ∀ c ∈ ('.' :: (fraction ++ rest)).head?, c.isDigit = false := by simp
  simp only [readMantissa, Text.takeWhile_run hwhole hpoint, Text.dropWhile_run hwhole hpoint,
    Text.takeWhile_run hfraction hrest, Text.dropWhile_run hfraction hrest]

theorem readMantissa_whole (hwhole : ∀ c ∈ whole, c.isDigit = true)
    (hrest : ∀ c ∈ rest.head?, c.isDigit = false) (hpoint : rest.head? ≠ some '.') :
    readMantissa (whole ++ rest) = (whole, [], rest) := by
  rw [readMantissa, Text.takeWhile_run hwhole hrest, Text.dropWhile_run hwhole hrest]
  split
  · exact absurd rfl hpoint
  · rfl

end Mantissa

section Notations

variable {d : Decimal} {digits : List Char} {lead : Int}

theorem isDigit_zeros (k : Nat) : ∀ c ∈ List.replicate k '0', c.isDigit = true := by
  intro c hc
  rw [List.eq_of_mem_replicate hc]
  decide

theorem readsAs_fraction (h : Written d digits lead) (hlead : lead < 0) :
    ReadsAs ('0' :: '.' :: (List.replicate (-lead - 1).toNat '0' ++ digits)) d.position := by
  have hfraction : ∀ c ∈ List.replicate (-lead - 1).toNat '0' ++ digits, c.isDigit = true :=
    fun c hc => (List.mem_append.1 hc).elim (isDigit_zeros _ c) (h.isDigit c)
  have hread := @readMantissa_point ['0'] _ [] (by simp) hfraction (by simp)
  rw [List.append_nil] at hread
  refine ⟨_, _, _, 0, hread, by simp, rfl, ?_⟩
  have hvalue : digitsValue (['0'] ++ (List.replicate (-lead - 1).toNat '0' ++ digits)) =
      digitsValue digits := by
    have hone : ['0'] = List.replicate 1 '0' := rfl
    rw [hone, digitsValue_zeros_append, digitsValue_zeros_append]
  have hscale : 0 - ((List.replicate (-lead - 1).toNat '0' ++ digits).length : Int) =
      lead + 1 - digits.length := by
    rw [List.length_append, List.length_replicate]
    omega
  rw [hvalue, hscale, h.position]

theorem readsAs_whole (h : Written d digits lead) (hlead : 0 ≤ lead)
    (hshort : digits.length ≤ lead.toNat + 1) :
    ReadsAs (digits ++ List.replicate (lead.toNat + 1 - digits.length) '0') d.position := by
  have hwhole : ∀ c ∈ digits ++ List.replicate (lead.toNat + 1 - digits.length) '0',
      c.isDigit = true :=
    fun c hc => (List.mem_append.1 hc).elim (h.isDigit c) (isDigit_zeros _ c)
  have hread := @readMantissa_whole _ [] hwhole (by simp) (by simp)
  rw [List.append_nil] at hread
  refine ⟨_, _, _, 0, hread, by simp [h.ne_nil], rfl, ?_⟩
  have hscale : (0 : Int) - ([] : List Char).length + (lead.toNat + 1 - digits.length : Nat) =
      lead + 1 - digits.length := by
    rw [List.length_nil]
    omega
  rw [List.append_nil, digitsValue_append_zeros, position_mul_pow, hscale, h.position]

theorem readsAs_whole_point (h : Written d digits lead) (hlead : 0 ≤ lead)
    (hshort : digits.length ≤ lead.toNat + 1) :
    ReadsAs (digits ++ List.replicate (lead.toNat + 1 - digits.length) '0' ++ ['.', '0'])
      d.position := by
  have hwhole : ∀ c ∈ digits ++ List.replicate (lead.toNat + 1 - digits.length) '0',
      c.isDigit = true :=
    fun c hc => (List.mem_append.1 hc).elim (h.isDigit c) (isDigit_zeros _ c)
  have hread := @readMantissa_point _ ['0'] [] hwhole (by simp) (by simp)
  rw [List.append_nil] at hread
  refine ⟨_, _, _, 0, hread, by simp [h.ne_nil], rfl, ?_⟩
  have hzeros : digits ++ List.replicate (lead.toNat + 1 - digits.length) '0' ++ ['0'] =
      digits ++ List.replicate (lead.toNat + 2 - digits.length) '0' := by
    rw [List.append_assoc, ← List.replicate_succ', ← Nat.sub_add_comm hshort]
  have hscale : (0 : Int) - (['0'] : List Char).length + (lead.toNat + 2 - digits.length : Nat) =
      lead + 1 - digits.length := by
    rw [List.length_singleton]
    omega
  rw [hzeros, digitsValue_append_zeros, position_mul_pow, hscale, h.position]

theorem readsAs_split (h : Written d digits lead) (hlead : 0 ≤ lead)
    (hlong : lead.toNat + 1 < digits.length) :
    ReadsAs (digits.take (lead.toNat + 1) ++ '.' :: digits.drop (lead.toNat + 1)) d.position := by
  have hread := @readMantissa_point _ _ []
    (fun c hc => h.isDigit c (List.mem_of_mem_take (i := lead.toNat + 1) hc))
    (fun c hc => h.isDigit c (List.mem_of_mem_drop (i := lead.toNat + 1) hc)) (by simp)
  rw [List.append_nil] at hread
  refine ⟨_, _, _, 0, hread, by simp [h.ne_nil], rfl, ?_⟩
  have hscale : 0 - ((digits.drop (lead.toNat + 1)).length : Int) =
      lead + 1 - digits.length := by
    rw [List.length_drop]
    omega
  rw [List.take_append_drop, hscale, h.position]

theorem readsAs_positional (h : Written d digits lead) :
    ReadsAs (positional digits lead) d.position := by
  unfold positional
  split
  next hsmall => exact readsAs_fraction h hsmall
  next hlarge =>
    have hlead := Int.not_lt.1 hlarge
    simp only
    split
    next hshort => exact readsAs_whole h hlead hshort
    next hlong => exact readsAs_split h hlead (Nat.not_le.1 hlong)

def exponentText (lead : Int) : List Char :=
  'e' :: (if lead < 0 then '-' :: Nat.toDigits 10 lead.natAbs
    else ['+'] ++ Nat.toDigits 10 lead.natAbs)

theorem readExponent?_exponentText (lead : Int) :
    readExponent? (exponentText lead) = some lead := by
  have hsome : (Nat.toDigits 10 lead.natAbs).isEmpty = false := by simp [Nat.toDigits_ne_nil]
  have hdigits : (Nat.toDigits 10 lead.natAbs).all Char.isDigit = true :=
    List.all_eq_true.2 fun _ hc => Nat.isDigit_of_mem_toDigits (by decide) (by decide) hc
  have hvalue : digitsValue (Nat.toDigits 10 lead.natAbs) = lead.natAbs :=
    Nat.ofDigitChars_ten_toDigits
  unfold exponentText
  split
  next hneg =>
    simp only [readExponent?, readSign, hsome, hdigits, hvalue, decide_true, Bool.true_or,
      Bool.not_false, Bool.and_self, if_true, Option.some.injEq]
    omega
  next hnonneg =>
    simp only [List.singleton_append, readExponent?, readSign, hsome, hdigits, hvalue, decide_true,
      Bool.true_or, Bool.not_false, Bool.and_self, if_true, Bool.false_eq_true, if_false,
      Option.some.injEq]
    omega

theorem exponentText_head (lead : Int) : (exponentText lead).head? = some 'e' := rfl

theorem readsAs_scientific (h : Written d digits lead) :
    ReadsAs (scientific digits lead ['+']) d.position := by
  have hdigits := h.isDigit
  have hposition := h.position
  have hexponent := readExponent?_exponentText lead
  have hend : ∀ c ∈ (exponentText lead).head?, c.isDigit = false := by simp [exponentText_head]
  cases digits with
  | nil => exact absurd rfl h.ne_nil
  | cons c rest =>
    cases rest with
    | nil =>
      have hread := readMantissa_whole hdigits hend (by simp [exponentText_head])
      exact ⟨_, _, _, lead, hread, by simp, hexponent, by simpa using hposition⟩
    | cons d rest =>
      have hread := readMantissa_point (fun e he => hdigits e (List.mem_of_mem_take (i := 1) he))
        (fun e he => hdigits e (List.mem_cons_of_mem c he)) hend
      have hscale : lead - ((d :: rest).length : Int) = lead + 1 - (c :: d :: rest).length := by
        simp only [List.length_cons]
        omega
      refine ⟨[c], d :: rest, _, lead, hread, by simp, hexponent, ?_⟩
      rw [hscale]
      exact hposition

end Notations

end KeyedRender.Decimal
