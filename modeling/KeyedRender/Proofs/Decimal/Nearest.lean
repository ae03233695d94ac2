import KeyedRender.Proofs.Decimal.Rounding
import Mathlib.Algebra.Order.Field.Power
import Mathlib.Algebra.Order.Field.Rat
import Mathlib.Data.Rat.Cast.Order
import Mathlib.Tactic.Linarith
import Mathlib.Tactic.NormNum
import Mathlib.Tactic.Positivity

/-!
# Correct rounding

No magnitude is nearer to a ratio than the one that it is rounded to, and of two that are equally
near it is the even one. Magnitudes go on past the finite ones, so that what rounds to one of those
is too large for a finite number. A decimal is rounded correctly, too, wherever its leading digit is.
-/
namespace KeyedRender.Binary64

/-- No position is nearer to so many units, and a position that is as near as another is even. -/
structure RoundsTo (x : ℚ) (p : Nat) : Prop where
  nearest : ∀ q, |(units p : ℚ) - x| ≤ |(units q : ℚ) - x|
  even : ∀ q, q ≠ p → |(units p : ℚ) - x| = |(units q : ℚ) - x| → p % 2 = 0

section Order

theorem units_spacing {s m : Nat} (hlow : s = 0 ∨ binade ≤ m) (hhigh : m ≤ 2 * binade) :
    units (s * binade + m) = m * 2 ^ s := by
  have hbinade : 0 < binade := by decide
  by_cases hsmall : m < binade
  · obtain rfl := hlow.resolve_right (Nat.not_le.2 hsmall)
    rw [Nat.zero_mul, Nat.zero_add, units, if_pos hsmall, pow_zero, Nat.mul_one]
  obtain ⟨r, rfl⟩ := Nat.exists_eq_add_of_le (Nat.not_lt.1 hsmall)
  have hlarge : ¬ s * binade + (binade + r) < binade := by omega
  have hposition : s * binade + (binade + r) = r + (s + 1) * binade := by ring
  rw [units, if_neg hlarge, hposition, Nat.add_mul_mod_self_right,
    Nat.add_mul_div_right _ _ hbinade]
  rcases Nat.lt_or_ge r binade with hr | hr
  · rw [Nat.mod_eq_of_lt hr, Nat.div_eq_of_lt hr, Nat.zero_add, Nat.add_sub_cancel]
    rfl
  · obtain rfl : r = binade := by omega
    rw [Nat.mod_self, Nat.div_self hbinade, show 1 + (s + 1) - 1 = s + 1 by omega]
    change (binade + 0) * 2 ^ (s + 1) = _
    ring

theorem units_lt_succ (p : Nat) : units p < units (p + 1) := by
  have hbinade : 0 < binade := by decide
  obtain ⟨s, m, hp, hlow, hhigh⟩ : ∃ s m, p = s * binade + m ∧ (s = 0 ∨ binade ≤ m) ∧
      m < 2 * binade := by
    rcases Nat.lt_or_ge p binade with hsmall | hlarge
    · exact ⟨0, p, by omega, .inl rfl, by omega⟩
    · have hmod := Nat.mod_lt p hbinade
      have hparts := Nat.div_add_mod' p binade
      obtain ⟨k, hk⟩ := Nat.exists_eq_add_one_of_ne_zero (Nat.ne_of_gt (Nat.div_pos hlarge hbinade))
      rw [hk, Nat.add_one_mul] at hparts
      exact ⟨k, binade + p % binade, by omega, .inr (by omega), by omega⟩
  rw [hp, Nat.add_assoc, units_spacing hlow hhigh.le,
    units_spacing (hlow.imp_right Nat.le_succ_of_le) hhigh]
  exact Nat.mul_lt_mul_of_pos_right m.lt_succ_self (Nat.pow_pos (by decide))

theorem units_strictMono : StrictMono units := strictMono_nat_of_lt_succ units_lt_succ

theorem units_cast_lt {p q : Nat} (h : p < q) : (units p : ℚ) < units q :=
  Nat.cast_lt.2 (units_strictMono h)

end Order

section Rounding

variable {x : ℚ} {p q : Nat}

theorem RoundsTo.of_range (low high : Nat) (hlow : (units low : ℚ) ≤ x) (hhigh : x ≤ units high)
    (hrange : low ≤ high)
    (h : ∀ q, low ≤ q → q ≤ high → |(units p : ℚ) - x| ≤ |(units q : ℚ) - x| ∧
      (q ≠ p → |(units p : ℚ) - x| = |(units q : ℚ) - x| → p % 2 = 0)) : RoundsTo x p := by
  have houtside : ∀ q, ¬ (low ≤ q ∧ q ≤ high) → |(units p : ℚ) - x| < |(units q : ℚ) - x| := by
    intro q hq
    rcases Nat.lt_or_ge q low with hbelow | hinside
    · have hlt := units_cast_lt hbelow
      refine lt_of_le_of_lt (h low le_rfl hrange).1 ?_
      rw [abs_of_nonpos (by linarith), abs_of_nonpos (by linarith)]
      linarith
    · have hlt := units_cast_lt (show high < q by omega)
      refine lt_of_le_of_lt (h high hrange le_rfl).1 ?_
      rw [abs_of_nonneg (by linarith), abs_of_nonneg (by linarith)]
      linarith
  constructor
  · intro q
    by_cases hq : low ≤ q ∧ q ≤ high
    · exact (h q hq.1 hq.2).1
    · exact (houtside q hq).le
  · intro q hne heq
    by_cases hq : low ≤ q ∧ q ≤ high
    · exact (h q hq.1 hq.2).2 hne heq
    · exact absurd heq (houtside q hq).ne

theorem RoundsTo.unique (hp : RoundsTo x p) (hq : RoundsTo x q) : p = q := by
  have hne : ∀ {p q : Nat}, RoundsTo x p → RoundsTo x q → ¬ p < q := by
    intro p q hp hq hlt
    have heq := le_antisymm (hp.nearest q) (hq.nearest p)
    have hevenp := hp.even q (by omega) heq
    have hevenq := hq.even p (by omega) heq.symm
    -- Both are even, so that one lies between them, and that is nearer.
    have hleft := units_cast_lt (Nat.lt_succ_self p)
    have hright := units_cast_lt (show p + 1 < q by omega)
    have hbetween := hp.nearest (p + 1)
    rcases abs_eq_abs.1 heq with hsame | hopposite
    · linarith
    · have hmiddle : x = ((units p : ℚ) + units q) / 2 := by linarith
      have hnearer : |(units (p + 1) : ℚ) - x| < x - units p :=
        abs_lt.2 ⟨by linarith, by linarith⟩
      rw [abs_of_neg (by linarith)] at hbetween
      linarith
  exact Nat.le_antisymm (Nat.not_lt.1 (hne hq hp)) (Nat.not_lt.1 (hne hp hq))

theorem RoundsTo.le_of_le {bound : Nat} (h : RoundsTo x p) (hbound : (units bound : ℚ) ≤ x) :
    bound ≤ p := by
  by_contra hlt
  have hunits := units_cast_lt (Nat.not_le.1 hlt)
  have hnearest := h.nearest bound
  rw [abs_of_neg (by linarith), abs_of_nonpos (by linarith)] at hnearest
  linarith

theorem RoundsTo.zero (hpos : 0 ≤ x) (hhalf : x < 1 / 2) : RoundsTo x 0 := by
  have hzero : (units 0 : ℚ) = 0 := by norm_num [units, show (0 : Nat) < binade by decide]
  have hfarther : ∀ q, q ≠ 0 → |(units 0 : ℚ) - x| < |(units q : ℚ) - x| := by
    intro q hq
    have hone : (1 : ℚ) ≤ units q := by exact_mod_cast Decimal.units_pos (Nat.pos_of_ne_zero hq)
    rw [hzero, abs_of_nonpos (by linarith), abs_of_nonneg (by linarith)]
    linarith
  refine ⟨fun q => ?_, fun q hq heq => absurd heq (hfarther q hq).ne⟩
  by_cases hq : q = 0
  · rw [hq]
  · exact (hfarther q hq).le

section Halves

variable (num : Nat) {den : Nat} (hden : 0 < den)
include hden

theorem ratio_eq_whole_add_part :
    (num : ℚ) / den = (num / den : Nat) + ((num % den : Nat) : ℚ) / den := by
  have hparts : (num : ℚ) = (num / den : Nat) * den + (num % den : Nat) := by
    exact_mod_cast (Nat.div_add_mod' num den).symm
  have hne : (den : ℚ) ≠ 0 := Nat.cast_ne_zero.2 hden.ne'
  rw [div_eq_iff hne, add_mul, div_mul_cancel₀ _ hne]
  exact hparts

theorem part_eq_half_iff : ((num % den : Nat) : ℚ) / den = 1 / 2 ↔ 2 * (num % den) = den := by
  rw [div_eq_iff (Nat.cast_ne_zero.2 hden.ne'), ← Nat.cast_inj (R := ℚ)]
  push_cast
  constructor <;> intro h <;> linarith

theorem part_lt_half_iff : ((num % den : Nat) : ℚ) / den < 1 / 2 ↔ 2 * (num % den) < den := by
  rw [div_lt_iff₀ (Nat.cast_pos.2 hden), ← Nat.cast_lt (α := ℚ)]
  push_cast
  constructor <;> intro h <;> linarith

theorem halfEven_spec :
    |(halfEven num den : ℚ) - num / den| ≤ 1 / 2 ∧
      (|(halfEven num den : ℚ) - num / den| = 1 / 2 → halfEven num den % 2 = 0) := by
  have hhalf := part_eq_half_iff num hden
  have hless := part_lt_half_iff num hden
  have hpos : 0 ≤ ((num % den : Nat) : ℚ) / den := by positivity
  have hone : ((num % den : Nat) : ℚ) / den < 1 := by
    rw [div_lt_one (Nat.cast_pos.2 hden)]
    exact_mod_cast Nat.mod_lt num hden
  rw [ratio_eq_whole_add_part num hden, halfEven]
  generalize ((num % den : Nat) : ℚ) / den = part at *
  split
  · next hlow =>
    have hpart : part ≤ 1 / 2 := by
      rcases hlow with h | h
      · exact (hless.2 h).le
      · exact (hhalf.2 h.1).le
    have habs : |((num / den : Nat) : ℚ) - ((num / den : Nat) + part)| = part := by
      rw [sub_add_cancel_left, abs_neg, abs_of_nonneg hpos]
    rw [habs]
    refine ⟨hpart, fun heq => ?_⟩
    have := hhalf.1 heq
    omega
  · next hhigh =>
    have hpart : 1 / 2 ≤ part := not_lt.1 fun h => hhigh (.inl (hless.1 h))
    have habs : |((num / den + 1 : Nat) : ℚ) - ((num / den : Nat) + part)| = 1 - part := by
      push_cast
      rw [add_sub_add_left_eq_sub, abs_of_pos (by linarith)]
    rw [habs]
    refine ⟨by linarith, fun heq => ?_⟩
    have := hhalf.1 (by linarith)
    omega

end Halves

/-- No whole number is nearer to a ratio than the half-even one. -/
theorem halfEven_nearest (num : Nat) {den : Nat} (hden : 0 < den) (m : Nat) :
    |(halfEven num den : ℚ) - num / den| ≤ |(m : ℚ) - num / den| ∧
      (m ≠ halfEven num den → |(halfEven num den : ℚ) - num / den| = |(m : ℚ) - num / den| →
        halfEven num den % 2 = 0) := by
  obtain ⟨hclose, heven⟩ := halfEven_spec num hden
  by_cases hm : m = halfEven num den
  · exact ⟨by rw [hm], fun hne => absurd hm hne⟩
  have hapart : (1 : ℚ) ≤ |(halfEven num den : ℚ) - m| := by
    have hint : ((halfEven num den : ℤ) - m) ≠ 0 := by omega
    exact_mod_cast Int.one_le_abs hint
  have htriangle : |(halfEven num den : ℚ) - m| ≤
      |(halfEven num den : ℚ) - num / den| + |(m : ℚ) - num / den| := by
    rw [abs_sub_comm (m : ℚ)]
    exact abs_sub_le _ _ _
  exact ⟨by linarith, fun _ heq => heven (by linarith)⟩

theorem RoundsTo.of_spacing {s low high num den : Nat} (hden : 0 < den) (hhigh : high = 2 * binade)
    (hlow : s = 0 ∨ binade ≤ low) (hrange : low ≤ high) (hfrom : (low : ℚ) ≤ num / den)
    (hto : (num : ℚ) / den ≤ high) :
    RoundsTo (num / den * 2 ^ s) (s * binade + halfEven num den) := by
  have hpow : (0 : ℚ) < 2 ^ s := by positivity
  have hunits : ∀ m, low ≤ m → m ≤ high → (units (s * binade + m) : ℚ) = m * 2 ^ s := by
    intro m hm hm'
    rw [units_spacing (hlow.imp_right hm.trans') (hhigh ▸ hm')]
    push_cast
    rfl
  have hscaled : ∀ m, low ≤ m → m ≤ high →
      |(units (s * binade + m) : ℚ) - num / den * 2 ^ s| = |(m : ℚ) - num / den| * 2 ^ s := by
    intro m hm hm'
    rw [hunits m hm hm', ← sub_mul, abs_mul, abs_of_pos hpow]
  have heven : (s * binade) % 2 = 0 := by
    rw [Nat.mul_mod, show binade % 2 = 0 by decide, Nat.mul_zero, Nat.zero_mod]
  have hclose := abs_le.1 (halfEven_spec num hden).1
  have hleast : low ≤ halfEven num den := by
    have : (low : ℚ) < halfEven num den + 1 := by linarith
    exact Nat.lt_succ_iff.1 (by exact_mod_cast this)
  have hmost : halfEven num den ≤ high := by
    have : (halfEven num den : ℚ) < high + 1 := by linarith
    exact Nat.lt_succ_iff.1 (by exact_mod_cast this)
  generalize s * binade = base at hunits hscaled heven ⊢
  refine .of_range (base + low) (base + high) ?_ ?_ (by omega) fun q hq hq' => ?_
  · rw [hunits low le_rfl hrange]
    exact mul_le_mul_of_nonneg_right hfrom hpow.le
  · rw [hunits _ hrange le_rfl]
    exact mul_le_mul_of_nonneg_right hto hpow.le
  · obtain ⟨m, rfl⟩ := Nat.exists_eq_add_of_le (show base ≤ q by omega)
    have hm : low ≤ m := by omega
    have hm' : m ≤ high := by omega
    obtain ⟨hnearest, hties⟩ := halfEven_nearest num hden m
    rw [hscaled _ hleast hmost, hscaled m hm hm']
    refine ⟨mul_le_mul_of_nonneg_right hnearest hpow.le, fun hne heq => ?_⟩
    have hparity := hties (by omega) (mul_right_cancel₀ hpow.ne' heq)
    omega

theorem spacing_bounds (n : Nat) : (n.log2 - 52 = 0 ∨ 2 ^ 52 * 2 ^ (n.log2 - 52) ≤ n) ∧
    n < 2 ^ 53 * 2 ^ (n.log2 - 52) := by
  rw [← pow_add, ← pow_add]
  by_cases hn : n = 0
  · subst hn
    exact ⟨.inl (by decide), by positivity⟩
  have hself := Nat.log2_self_le hn
  have hlt := (Nat.log2_lt hn).1 n.log2.lt_succ_self
  constructor
  · rcases Nat.lt_or_ge 52 n.log2 with h | h
    · exact .inr (by rwa [show 52 + (n.log2 - 52) = n.log2 by omega])
    · exact .inl (by omega)
  · exact hlt.trans_le (Nat.pow_le_pow_right (by decide) (by omega))

theorem le_ratio_of_le_div {low n den s : Nat} (hden : 0 < den) (h : low * 2 ^ s ≤ n / den) :
    (low : ℚ) ≤ (n : ℚ) / (den * 2 ^ s : Nat) := by
  have hmul : low * (den * 2 ^ s) ≤ n := by
    calc low * (den * 2 ^ s) = low * 2 ^ s * den := by ring
      _ ≤ n := (Nat.le_div_iff_mul_le hden).1 h
  rw [le_div_iff₀ (by exact_mod_cast Nat.mul_pos hden (Nat.pow_pos (by decide)))]
  exact_mod_cast hmul

theorem ratio_le_of_div_lt {high n den s : Nat} (hden : 0 < den) (h : n / den < high * 2 ^ s) :
    (n : ℚ) / (den * 2 ^ s : Nat) ≤ high := by
  have hmul : n ≤ high * (den * 2 ^ s) := by
    calc n ≤ high * 2 ^ s * den := ((Nat.div_lt_iff_lt_mul hden).1 h).le
      _ = high * (den * 2 ^ s) := by ring
  rw [div_le_iff₀ (by exact_mod_cast Nat.mul_pos hden (Nat.pow_pos (by decide)))]
  exact_mod_cast hmul

theorem nearest_rounds (num : Nat) {den : Nat} (hden : 0 < den) :
    RoundsTo ((num : ℚ) / den * unitsInOne) (nearest num den) := by
  have hbinade : binade = 2 ^ 52 := by decide
  have hhigh : (2 : Nat) ^ 53 = 2 * binade := by decide
  rw [nearest]
  generalize unitsInOne = one
  obtain ⟨hleast, hmost⟩ := spacing_bounds (num * one / den)
  generalize Nat.log2 (num * one / den) - 52 = s at hleast hmost ⊢
  change RoundsTo _ (s * binade + halfEven (num * one) (den * 2 ^ s))
  have hdens : 0 < den * 2 ^ s := Nat.mul_pos hden (Nat.pow_pos (by decide))
  have hratio : (num : ℚ) / den * one =
      ((num * one : Nat) : ℚ) / (den * 2 ^ s : Nat) * 2 ^ s := by
    have hpow : (0 : ℚ) < 2 ^ s := by positivity
    push_cast
    rw [div_mul_eq_mul_div, ← div_div, div_mul_cancel₀ _ hpow.ne']
  rw [hratio]
  have hto := ratio_le_of_div_lt hden hmost
  rcases hleast with rfl | hleast
  · have hfrom : (0 : Nat) * 2 ^ 0 ≤ num * one / den := by
      rw [Nat.zero_mul]
      exact Nat.zero_le _
    exact .of_spacing hdens hhigh (.inl rfl) (Nat.zero_le _) (le_ratio_of_le_div hden hfrom) hto
  · exact .of_spacing hdens hhigh (.inr hbinade.le) (by decide) (le_ratio_of_le_div hden hleast) hto

end Rounding

/-- The number with a sign whose magnitude a ratio rounds to, infinite past the finite ones. -/
def Nearest (negative : Bool) (ratio : ℚ) (x : Binary64) : Prop :=
  ∃ p, RoundsTo (ratio * unitsInOne) p ∧ x = ofPosition negative p

theorem Nearest.unique {negative : Bool} {ratio : ℚ} {x y : Binary64}
    (hx : Nearest negative ratio x) (hy : Nearest negative ratio y) : x = y := by
  obtain ⟨p, hp, rfl⟩ := hx
  obtain ⟨q, hq, rfl⟩ := hy
  rw [hp.unique hq]

theorem nearest_ofRatio (negative : Bool) (num : Nat) {den : Nat} (hden : 0 < den) :
    Nearest negative ((num : ℚ) / den) (ofRatio negative num den) :=
  ⟨nearest num den, nearest_rounds num hden, rfl⟩

end KeyedRender.Binary64

namespace KeyedRender.Decimal

open Binary64 (units unitsInOne magnitudes nearest RoundsTo Nearest)

def value (d : Decimal) : ℚ := d.coefficient * 10 ^ d.scale

section Value

variable (d : Decimal)

theorem value_eq_div :
    d.value = ((d.coefficient * Nat.pow 10 d.scale.toNat : Nat) : ℚ) /
      (Nat.pow 10 (-d.scale).toNat : Nat) := by
  have hten : (10 : ℚ) ≠ 0 := by norm_num
  have hscale : d.scale = (d.scale.toNat : Int) - ((-d.scale).toNat : Int) := by omega
  have hpow : (10 : ℚ) ^ d.scale = 10 ^ d.scale.toNat / 10 ^ (-d.scale).toNat := by
    conv_lhs => rw [hscale, zpow_sub₀ hten, zpow_natCast, zpow_natCast]
  rw [value, hpow, ← mul_div_assoc, show Nat.pow = (fun a b => a ^ b) from rfl]
  push_cast
  rfl

variable {d}

theorem value_lt : d.value < 10 ^ (digitCount d.coefficient + d.scale) := by
  have hlt : d.coefficient < 10 ^ digitCount d.coefficient :=
    (Nat.length_toDigits_le_iff (by decide) (digitCount_pos _)).1 le_rfl
  rw [zpow_add₀ (by norm_num), zpow_natCast]
  exact mul_lt_mul_of_pos_right (by exact_mod_cast hlt) (by positivity)

theorem le_value (h : d.coefficient ≠ 0) :
    10 ^ (digitCount d.coefficient + d.scale - 1) ≤ d.value := by
  obtain ⟨count, hcount⟩ := Nat.exists_eq_add_one_of_ne_zero (digitCount_pos d.coefficient).ne'
  have hle : 10 ^ count ≤ d.coefficient := by
    by_cases hzero : count = 0
    · rw [hzero]
      exact Nat.pos_of_ne_zero h
    · by_contra hlt
      have := (Nat.length_toDigits_le_iff (by decide) (Nat.pos_of_ne_zero hzero)).2
        (Nat.not_le.1 hlt)
      rw [← digitCount] at this
      omega
  rw [hcount, show ((count + 1 : Nat) : Int) + d.scale - 1 = count + d.scale by push_cast; ring,
    zpow_add₀ (by norm_num), zpow_natCast]
  exact mul_le_mul_of_nonneg_right (by exact_mod_cast hle) (by positivity)

theorem value_nonneg : 0 ≤ d.value := by
  unfold value
  positivity

end Value

section Bounds

theorem two_mul_unitsInOne_lt : 2 * unitsInOne < 10 ^ 331 := by decide +kernel

theorem units_magnitudes_le : units magnitudes ≤ 10 ^ 310 * unitsInOne := by decide +kernel

theorem unitsInOne_cast_pos : (0 : ℚ) < unitsInOne := by exact_mod_cast Binary64.unitsInOne_pos

variable {d : Decimal}

theorem value_mul_unitsInOne_lt (h : (digitCount d.coefficient : Int) + d.scale < -330) :
    d.value * unitsInOne < 1 / 2 := by
  have hvalue : d.value ≤ (10 ^ 331)⁻¹ := by
    rw [← zpow_natCast, ← zpow_neg]
    exact value_lt.le.trans (zpow_le_zpow_right₀ (by norm_num) (by push_cast; omega))
  have hbound : (2 : ℚ) * unitsInOne < 10 ^ 331 := by exact_mod_cast two_mul_unitsInOne_lt
  have hlarge : (0 : ℚ) < 10 ^ 331 := by positivity
  have hone := unitsInOne_cast_pos
  generalize (unitsInOne : ℚ) = one at hone hbound ⊢
  generalize (10 : ℚ) ^ 331 = large at hvalue hbound hlarge
  calc d.value * one ≤ large⁻¹ * one := mul_le_mul_of_nonneg_right hvalue hone.le
    _ = one / large := inv_mul_eq_div ..
    _ < 1 / 2 := by
      rw [div_lt_iff₀ hlarge]
      linarith

theorem units_magnitudes_le_value (hne : d.coefficient ≠ 0)
    (h : (digitCount d.coefficient : Int) + d.scale > 310) :
    (units magnitudes : ℚ) ≤ d.value * unitsInOne := by
  have hvalue : (10 : ℚ) ^ (310 : Int) ≤ d.value :=
    (zpow_le_zpow_right₀ (by norm_num) (by omega)).trans (le_value hne)
  have hbound : (units magnitudes : ℚ) ≤ 10 ^ 310 * unitsInOne := by
    exact_mod_cast units_magnitudes_le
  exact hbound.trans (mul_le_mul_of_nonneg_right hvalue unitsInOne_cast_pos.le)

end Bounds

/-- A decimal goes to the number that is nearest to its value. -/
theorem nearest_toBinary64 (negative : Bool) (d : Decimal) :
    Nearest negative d.value (d.toBinary64 negative) := by
  have hrounds : RoundsTo (d.value * unitsInOne)
      (nearest (d.coefficient * Nat.pow 10 d.scale.toNat) (Nat.pow 10 (-d.scale).toNat)) := by
    rw [value_eq_div]
    exact Binary64.nearest_rounds _ (Nat.pow_pos (by decide))
  unfold toBinary64
  simp only [Bool.or_eq_true, decide_eq_true_eq]
  split
  · next hsmall =>
    refine ⟨0, .zero (mul_nonneg value_nonneg unitsInOne_cast_pos.le) ?_, rfl⟩
    rcases hsmall with hzero | htop
    · rw [value, hzero, Nat.cast_zero, zero_mul, zero_mul]
      exact one_half_pos
    · exact value_mul_unitsInOne_lt htop
  next hsmall =>
  split
  · next hlarge =>
    have hle := hrounds.le_of_le (units_magnitudes_le_value (fun h => hsmall (.inl h)) hlarge)
    exact ⟨_, hrounds, by rw [Binary64.ofPosition, dif_neg (Nat.not_lt.2 hle)]⟩
  · exact ⟨_, hrounds, rfl⟩

end KeyedRender.Decimal
