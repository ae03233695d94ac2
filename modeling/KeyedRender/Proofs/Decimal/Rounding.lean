import KeyedRender.Proofs.Decimal.Length

/-!
# Rounding of decimals

What a decimal rounds to depends on its value only, not on how a ratio or a power of ten is put.
A magnitude rounds to itself, so its exact decimal reads back as it, and so does the shortest one,
which was read back when it was found.
-/
namespace KeyedRender.Binary64

theorem halfEven_mul {k : Nat} (hk : 0 < k) (num den : Nat) :
    halfEven (k * num) (k * den) = halfEven num den := by
  have hlt : 2 * (k * (num % den)) < k * den ↔ 2 * (num % den) < den := by
    rw [Nat.mul_left_comm]
    exact Nat.mul_lt_mul_left hk
  have heq : 2 * (k * (num % den)) = k * den ↔ 2 * (num % den) = den := by
    rw [Nat.mul_left_comm]
    exact Nat.mul_right_inj (Nat.ne_of_gt hk)
  simp only [halfEven, Nat.mul_div_mul_left _ _ hk, Nat.mul_mod_mul_left, hlt, heq]

theorem nearest_mul {k : Nat} (hk : 0 < k) (num den : Nat) :
    nearest (k * num) (k * den) = nearest num den := by
  simp only [nearest, Nat.mul_assoc, Nat.mul_div_mul_left _ _ hk, halfEven_mul hk]

theorem nearest_congr {num den num' den' : Nat} (hden : 0 < den) (hden' : 0 < den')
    (h : num * den' = num' * den) : nearest num den = nearest num' den' := by
  rw [← nearest_mul hden' num den, ← nearest_mul hden num' den', Nat.mul_comm den' num, h,
    Nat.mul_comm den' den, Nat.mul_comm num' den]

theorem halfEven_mul_self {den : Nat} (h : 0 < den) (num : Nat) :
    halfEven (num * den) den = num := by
  simp [halfEven, Nat.mul_div_cancel _ h, h]

theorem unitsInOne_pos : 0 < unitsInOne := by
  unfold unitsInOne
  generalize 1074 = e
  exact Nat.pow_pos (by decide)

theorem log2_units {mantissa e : Nat} (hlow : 2 ^ 52 ≤ mantissa) (hhigh : mantissa < 2 ^ 53) :
    Nat.log2 (mantissa * Nat.pow 2 e) = 52 + e := by
  have hpow : 0 < 2 ^ e := Nat.pow_pos (by decide)
  refine (Nat.log2_eq_iff (Nat.ne_of_gt (Nat.mul_pos (by omega) hpow))).2 ⟨?_, ?_⟩
  · rw [pow_add]
    exact Nat.mul_le_mul_right _ hlow
  · rw [Nat.add_right_comm, pow_add]
    exact Nat.mul_lt_mul_of_pos_right hhigh hpow

theorem nearest_of_spaced {magnitude mantissa e : Nat} (h : magnitude = mantissa * Nat.pow 2 e)
    (hlog : Nat.log2 magnitude - 52 = e) :
    nearest magnitude unitsInOne = e * binade + mantissa := by
  have hone := unitsInOne_pos
  rw [nearest]
  generalize unitsInOne = one at hone ⊢
  have hspacing : 0 < one * Nat.pow 2 e := Nat.mul_pos hone (Nat.pow_pos (by decide))
  have hratio : magnitude * one = mantissa * (one * Nat.pow 2 e) := by
    rw [h]
    ring
  rw [Nat.mul_div_cancel _ hone, hlog, hratio, halfEven_mul_self hspacing]

theorem nearest_units_small {position : Nat} (h : position < binade) :
    nearest (units position) unitsInOne = position := by
  have hbinade : binade = 2 ^ 52 := by decide
  have hunits : units position = position := if_pos h
  have hlog : Nat.log2 position - 52 = 0 := by
    by_cases hzero : position = 0
    · rw [hzero]; decide
    · have := (Nat.log2_lt hzero).2 (hbinade ▸ h)
      omega
  rw [hunits, nearest_of_spaced (Nat.mul_one position).symm hlog, Nat.zero_mul, Nat.zero_add]

theorem nearest_units_large {position : Nat} (h : binade ≤ position) :
    nearest (units position) unitsInOne = position := by
  have hbinade : binade = 2 ^ 52 := by decide
  obtain ⟨e, he⟩ := Nat.exists_eq_add_one_of_ne_zero
    (Nat.ne_of_gt (Nat.div_pos h (by decide : 0 < binade)))
  have hunits : units position = (binade + position % binade) * Nat.pow 2 e := by
    rw [units, if_neg (Nat.not_lt.2 h), he, Nat.add_sub_cancel]
  have hmod : position % binade < binade := Nat.mod_lt _ (by decide)
  have hlog := @log2_units (binade + position % binade) e (by omega) (by omega)
  rw [nearest_of_spaced hunits (by rw [hunits, hlog, Nat.add_sub_cancel_left])]
  have hparts := Nat.div_add_mod position binade
  rw [he, Nat.mul_comm, Nat.add_one_mul] at hparts
  rw [← Nat.add_assoc]
  exact hparts

/-- A magnitude rounds to itself. -/
theorem nearest_units (position : Nat) : nearest (units position) unitsInOne = position :=
  (Nat.lt_or_ge position binade).elim nearest_units_small nearest_units_large

end KeyedRender.Binary64

namespace KeyedRender.Decimal

open Binary64 (units unitsInOne magnitudes binade nearest nearest_congr nearest_units ofPosition)

def position (d : Decimal) : Nat :=
  if d.coefficient = 0 || digitCount d.coefficient + d.scale < -330 then 0
  else if digitCount d.coefficient + d.scale > 310 then magnitudes
  else nearest (d.coefficient * Nat.pow 10 d.scale.toNat) (Nat.pow 10 (-d.scale).toNat)

theorem toBinary64_eq (negative : Bool) (d : Decimal) :
    d.toBinary64 negative = ofPosition negative d.position := by
  have hinfinite : ofPosition negative magnitudes = .infinite negative := dif_neg (Nat.lt_irrefl _)
  simp only [toBinary64, position, Binary64.ofRatio]
  split
  · rfl
  split
  · exact hinfinite.symm
  · rfl

theorem ofPosition_injective {negative : Bool} {p q : Nat} (hp : p < magnitudes)
    (h : ofPosition negative q = ofPosition negative p) : q = p := by
  unfold ofPosition at h
  rw [dif_pos hp] at h
  split at h
  · injection h with _ hpos
    exact congrArg Fin.val hpos
  · cases h

theorem digitCount_mul_pow {n : Nat} (h : 0 < n) (k : Nat) :
    digitCount (n * 10 ^ k) = digitCount n + k := by
  induction k with
  | zero => rw [pow_zero, Nat.mul_one, Nat.add_zero]
  | succ k ih =>
    have hpos : 0 < n * 10 ^ k := Nat.mul_pos h (Nat.pow_pos (by decide))
    have hdigits := Nat.toDigits_append_toDigits (by decide : 1 < 10) hpos (by decide : 0 < 10)
    have hsucc : n * 10 ^ (k + 1) = 10 * (n * 10 ^ k) + 0 := by ring
    rw [hsucc, digitCount, ← hdigits, List.length_append, ← digitCount, ih]
    rfl

theorem position_mul_pow (n k : Nat) (scale : Int) :
    position ⟨n * 10 ^ k, scale⟩ = position ⟨n, scale + k⟩ := by
  by_cases hzero : n = 0
  · simp [position, hzero]
  have hpow : 0 < 10 ^ k := Nat.pow_pos (by decide)
  have hne : n * 10 ^ k ≠ 0 := Nat.mul_ne_zero hzero (Nat.ne_of_gt hpow)
  have htop : (digitCount (n * 10 ^ k) : Int) + scale = digitCount n + (scale + k) := by
    rw [digitCount_mul_pow (Nat.pos_of_ne_zero hzero)]
    omega
  have hratio : nearest (n * 10 ^ k * 10 ^ scale.toNat) (10 ^ (-scale).toNat) =
      nearest (n * 10 ^ (scale + k).toNat) (10 ^ (-(scale + k)).toNat) := by
    refine nearest_congr (Nat.pow_pos (by decide)) (Nat.pow_pos (by decide)) ?_
    have hexponents : k + scale.toNat + (-(scale + k)).toNat =
        (scale + k).toNat + (-scale).toNat := by omega
    simp only [Nat.mul_assoc, ← pow_add, hexponents]
  simp only [position, hzero, hne, htop, decide_false, Bool.false_or]
  split
  · rfl
  split
  · rfl
  · exact hratio

section Exact

variable {p : Nat}

theorem le_digitCount {n e : Nat} (h : 10 ^ e ≤ n) : e + 1 ≤ digitCount n := by
  by_contra hlt
  have hcount : digitCount n ≤ e := by omega
  by_cases he : e = 0
  · have := digitCount_pos n
    omega
  · have := (Nat.length_toDigits_le_iff (by decide) (Nat.pos_of_ne_zero he)).1 hcount
    omega

theorem ten_pow_le_five_pow : 10 ^ 743 ≤ Nat.pow 5 1074 := by decide +kernel

theorem two_pow_le_ten_pow : 2 ^ 2099 * Nat.pow 5 1074 ≤ 10 ^ 1383 := by decide +kernel

theorem digitCount_exact (hpos : 0 < p) (hlt : p < magnitudes) :
    744 ≤ digitCount (exact p).coefficient ∧ digitCount (exact p).coefficient ≤ 1383 := by
  have hbinades : p / binade + 53 ≤ 2099 := by
    have : p / binade < 2047 := Nat.div_lt_of_lt_mul (by rw [Nat.mul_comm]; exact hlt)
    omega
  have hbound : ∀ e, p / binade + 53 ≤ e → units p < 2 ^ e := fun e he =>
    Nat.lt_of_lt_of_le (units_lt p) (Nat.pow_le_pow_right (by decide) he)
  have hunits := hbound 2099 hbinades
  have hlow := ten_pow_le_five_pow
  have hhigh := two_pow_le_ten_pow
  simp only [exact]
  generalize Nat.pow 5 1074 = five at hlow hhigh ⊢
  have hfive : 0 < five := Nat.lt_of_lt_of_le (Nat.pow_pos (by decide)) hlow
  constructor
  · exact le_digitCount (hlow.trans (Nat.le_mul_of_pos_left five (units_pos hpos)))
  · refine digitCount_le_of_lt (by decide) (Nat.lt_of_lt_of_le ?_ hhigh)
    exact Nat.mul_lt_mul_of_pos_right hunits hfive

/-- One exponent, which stays a name here, is behind the finest magnitude and its decimal. -/
theorem exists_exact (p : Nat) :
    ∃ e : Nat, unitsInOne = 2 ^ e ∧ exact p = ⟨units p * 5 ^ e, -(e : Int)⟩ := by
  have hscale : (-1074 : Int) = -((1074 : Nat) : Int) := rfl
  unfold unitsInOne exact
  rw [hscale]
  generalize 1074 = e
  exact ⟨e, rfl, rfl⟩

/-- The exact decimal of a magnitude reads back. -/
theorem position_exact (hpos : 0 < p) (hlt : p < magnitudes) : (exact p).position = p := by
  obtain ⟨hlow, hhigh⟩ := digitCount_exact hpos hlt
  have hscale : (exact p).scale = -1074 := rfl
  have hne : (exact p).coefficient ≠ 0 := by
    intro hzero
    rw [hzero] at hlow
    exact absurd hlow (by decide)
  have hratio : nearest ((exact p).coefficient * Nat.pow 10 (exact p).scale.toNat)
      (Nat.pow 10 (-(exact p).scale).toNat) = p := by
    obtain ⟨e, hone, hexact⟩ := exists_exact p
    have hwhole : (-(e : Int)).toNat = 0 := by omega
    have hpart : (- -(e : Int)).toNat = e := by omega
    have hself := nearest_units p
    rw [hone] at hself
    simp only [hexact, hwhole, hpart]
    refine (nearest_congr (Nat.pow_pos (by decide)) (Nat.pow_pos (by decide)) ?_).trans hself
    change units p * 5 ^ e * 10 ^ 0 * 2 ^ e = units p * 10 ^ e
    rw [pow_zero, Nat.mul_one, Nat.mul_assoc, ← Nat.mul_pow]
  rw [position, hratio, if_neg ?_, if_neg ?_]
  · omega
  · simp only [hne, decide_false, Bool.false_or, decide_eq_true_eq]
    omega

/-- So does the shortest one: it is the exact one or was read back on its grid. -/
theorem position_shortest (rule : TieRule) (hpos : 0 < p) (hlt : p < magnitudes) :
    (shortest rule p).position = p := by
  unfold shortest
  simp only
  cases hfound : (List.range 17).findSome? _ with
  | none => exact position_exact hpos hlt
  | some d =>
    obtain ⟨k, -, hgrid⟩ := List.exists_of_findSome?_eq_some hfound
    have hreads := (toBinary64_of_onGrid? hgrid).2
    rw [toBinary64_eq] at hreads
    exact ofPosition_injective hlt hreads

theorem coefficient_ne_zero {d : Decimal} (h : 0 < d.position) : d.coefficient ≠ 0 := by
  intro hzero
  simp [position, hzero] at h

end Exact

end KeyedRender.Decimal
