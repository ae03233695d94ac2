import KeyedRender.Key.Numbers
import KeyedRender.Text.Basic
import Mathlib.Tactic.Ring
import Mathlib.Tactic.Linarith

/-!
# Lengths of number texts

The text of a 64 bit number is short. A decimal that reads back as the number has its leading digit
within the range of the format, and the grids that are tried end where the finest magnitude does,
so there are not many digits; the exact expansion of a magnitude has a few thousand.
-/
namespace KeyedRender.Decimal

open Binary64 (units unitsInOne magnitudes binade)

theorem digitsValue_concat (digits : List Char) (c : Char) :
    digitsValue (digits ++ [c]) = 10 * digitsValue digits + (c.toNat - '0'.toNat) := by
  simp [digitsValue, Nat.ofDigitChars_append, Nat.ofDigitChars_cons]

theorem digitCount_pos (n : Nat) : 0 < digitCount n := Nat.length_toDigits_pos

theorem digitCount_le_of_lt {n e : Nat} (he : 0 < e) (h : n < 10 ^ e) : digitCount n ≤ e :=
  (Nat.length_toDigits_le_iff (by decide) he).2 h

theorem digitCount_le_succ (n : Nat) : digitCount n ≤ n + 1 :=
  digitCount_le_of_lt n.succ_pos
    (Nat.lt_of_lt_of_le n.lt_succ_self (Nat.lt_pow_self (by decide)).le)

theorem pow_lt_ten_pow {b e : Nat} (hb : b < 10) (he : e ≠ 0) : Nat.pow b e < 10 ^ e :=
  Nat.pow_lt_pow_left hb he

theorem unitsInOne_lt : unitsInOne < 10 ^ 1074 := by
  have he : 1074 ≠ 0 := by decide
  unfold unitsInOne
  generalize 1074 = e at he ⊢
  exact pow_lt_ten_pow (by decide) he

theorem le_leadingExponent {num : Nat} (hpos : 0 < num) :
    -1074 ≤ leadingExponent num unitsInOne := by
  unfold leadingExponent
  split
  · have hquotient : (unitsInOne + num - 1) / num ≤ unitsInOne + 1 := by
      refine Nat.div_le_of_le_mul ?_
      nlinarith [Nat.sub_le (unitsInOne + num) 1]
    have hlt : (unitsInOne + num - 1) / num - 1 < 10 ^ 1074 :=
      Nat.lt_of_le_of_lt (by omega) unitsInOne_lt
    have hcount := digitCount_le_of_lt (by decide) hlt
    omega
  · have hcount := digitCount_pos (num / unitsInOne)
    omega

theorem units_pos {position : Nat} (h : 0 < position) : 0 < units position := by
  unfold units
  split
  · exact h
  · exact Nat.mul_pos (Nat.add_pos_left (by decide) _) (Nat.pow_pos (by decide))

theorem units_lt (position : Nat) : units position < 2 ^ (position / binade + 53) := by
  have hbinade : binade = 2 ^ 52 := by decide
  unfold units
  split
  · next hsmall =>
    rw [Nat.div_eq_of_lt hsmall, Nat.zero_add]
    exact hsmall.trans (by decide)
  · next hlarge =>
    have hmod := Nat.mod_lt position (show 0 < binade by decide)
    calc (binade + position % binade) * 2 ^ (position / binade - 1)
        < 2 ^ 53 * 2 ^ (position / binade - 1) :=
          Nat.mul_lt_mul_of_pos_right (by omega) (Nat.pow_pos (by decide))
      _ = 2 ^ (53 + (position / binade - 1)) := by rw [pow_add]
      _ ≤ 2 ^ (position / binade + 53) := Nat.pow_le_pow_right (by decide) (by
          rw [Nat.add_comm]
          exact Nat.add_le_add_right (Nat.sub_le _ 1) 53)

structure Small (d : Decimal) : Prop where
  digits : digitCount d.coefficient ≤ 4000
  leading : (leading d).natAbs ≤ 4000

theorem top_of_toBinary64 {d : Decimal} {position : Nat} (hpos : 0 < position)
    (hlt : position < magnitudes) (h : toBinary64 false d = .ofPosition false position) :
    -330 ≤ digitCount d.coefficient + d.scale ∧ digitCount d.coefficient + d.scale ≤ 310 := by
  have hfinite : toBinary64 false d = .finite false ⟨position, hlt⟩ := by
    rw [h, Binary64.ofPosition, dif_pos hlt]
  unfold toBinary64 at hfinite
  simp only at hfinite
  split at hfinite
  · rw [Binary64.ofPosition, dif_pos (by decide)] at hfinite
    injection hfinite with _ hzero
    have hzero := congrArg Fin.val hzero
    simp only at hzero
    omega
  split at hfinite
  · cases hfinite
  next hlow hhigh =>
    simp only [Bool.or_eq_true, decide_eq_true_eq, not_or] at hlow
    omega

theorem toBinary64_of_onGrid? {rule : TieRule} {position : Nat} {scale : Int} {d : Decimal}
    (h : onGrid? rule position scale = some d) :
    d.scale = scale ∧ toBinary64 false d = .ofPosition false position := by
  unfold onGrid? at h
  simp only at h
  split at h
  next hlow =>
    simp only [Bool.and_eq_true, decide_eq_true_eq] at hlow
    cases h
    exact ⟨rfl, hlow.1⟩
  split at h
  next hhigh =>
    cases h
    exact ⟨rfl, of_decide_eq_true hhigh⟩
  · cases h

theorem digitCount_exact_le (position : Nat) :
    digitCount (exact position).coefficient ≤ position / binade + 53 + 1074 := by
  have hunits : units position < 10 ^ (position / binade + 53) :=
    (units_lt position).trans (pow_lt_ten_pow (by decide) (Nat.succ_ne_zero _))
  have he : 1074 ≠ 0 := by decide
  simp only [exact]
  generalize 1074 = e at he ⊢
  refine digitCount_le_of_lt (Nat.add_pos_left (Nat.succ_pos _) e) ?_
  rw [pow_add _ (position / binade + 53)]
  exact Nat.mul_lt_mul'' hunits (pow_lt_ten_pow (by decide) he)

theorem small_shortest (rule : TieRule) {position : Nat} (hpos : 0 < position)
    (hlt : position < magnitudes) : Small (shortest rule position) := by
  unfold shortest
  simp only
  cases hfound : (List.range 17).findSome? _ with
  | none =>
    rw [Option.getD_none]
    have hbinades : position / binade < 2047 :=
      Nat.div_lt_of_lt_mul (by rw [Nat.mul_comm]; exact hlt)
    have hcount := digitCount_exact_le position
    have hscale : (exact position).scale = -1074 := rfl
    have hcount_pos := digitCount_pos (exact position).coefficient
    exact ⟨by omega, by unfold leading; omega⟩
  | some d =>
    rw [Option.getD_some]
    obtain ⟨k, hk, hgrid⟩ := List.exists_of_findSome?_eq_some hfound
    obtain ⟨hscale, hreads⟩ := toBinary64_of_onGrid? hgrid
    have hlead := le_leadingExponent (units_pos hpos)
    have htop := top_of_toBinary64 hpos hlt hreads
    have hk := List.mem_range.1 hk
    exact ⟨by omega, by unfold leading; omega⟩

theorem length_significant_le (d : Decimal) :
    (significant d).length ≤ digitCount d.coefficient := by
  have hdrop :=
    (List.dropWhile_sublist (l := (Nat.toDigits 10 d.coefficient).reverse) (· == '0')).length_le
  simpa [significant, digitCount] using hdrop

theorem length_positional_le (digits : List Char) (lead : Int) :
    (positional digits lead).length ≤ digits.length + lead.natAbs + 2 := by
  unfold positional
  split
  · simp only [List.length_cons, List.length_append, List.length_replicate]
    omega
  · simp only
    split
    · simp only [List.length_append, List.length_replicate]
      omega
    · simp only [List.length_append, List.length_cons, List.length_take, List.length_drop]
      omega

theorem length_scientific_le (digits : List Char) (lead : Int) (plus : List Char) :
    (scientific digits lead plus).length ≤ digits.length + plus.length + lead.natAbs + 4 := by
  have hexponent := digitCount_le_succ lead.natAbs
  unfold digitCount at hexponent
  have hsign : (if lead < 0 then '-' :: Nat.toDigits 10 lead.natAbs
      else plus ++ Nat.toDigits 10 lead.natAbs).length ≤ plus.length + lead.natAbs + 2 := by
    split
    · simp only [List.length_cons]
      omega
    · simp only [List.length_append]
      omega
  unfold scientific
  simp only [List.length_append, List.length_cons]
  split <;> simp only [List.length_cons, List.length_nil] <;> omega

end KeyedRender.Decimal

namespace KeyedRender.Key

theorem length_magnitudeText_le {position : Nat} (hpos : 0 < position)
    (hlt : position < Binary64.magnitudes) : (magnitudeText position).length ≤ 9000 := by
  have hsmall := Decimal.small_shortest .up hpos hlt
  have hdigits := (Decimal.length_significant_le _).trans hsmall.digits
  have hleading := hsmall.leading
  unfold magnitudeText
  simp only
  split
  · exact (Decimal.length_positional_le _ _).trans (by omega)
  · exact (Decimal.length_scientific_le _ _ _).trans (by rw [List.length_singleton]; omega)

theorem numberText_finite (negative : Bool) (position : Binary64.Position) :
    numberText (.finite negative position) =
      if position.val = 0 then ['0']
      else (if negative then ['-'] else []) ++ magnitudeText position.val := rfl

theorem length_numberText_le (value : Binary64) : (numberText value).length ≤ 9001 := by
  cases value with
  | nan => decide
  | infinite negative => cases negative <;> decide
  | finite negative position =>
    rw [numberText_finite]
    split
    · simp
    next hposition =>
      have hmagnitude := length_magnitudeText_le (Nat.pos_of_ne_zero hposition) position.isLt
      rw [List.length_append]
      have hsign : (if negative then ['-'] else []).length ≤ 1 := by cases negative <;> decide
      omega

end KeyedRender.Key

namespace KeyedRender.Text

theorem units_le_two_mul_length (text : List Char) : units text ≤ 2 * text.length := by
  induction text with
  | nil => exact Nat.le_refl 0
  | cons c rest ih =>
    have hwidth := unitWidth_le_two c
    simp only [units, List.length_cons]
    omega

end KeyedRender.Text
