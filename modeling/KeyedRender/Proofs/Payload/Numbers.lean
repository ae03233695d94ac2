import KeyedRender.Payload.Printer
import KeyedRender.Proofs.Key.Numbers

/-!
# Numbers in payload text

The text of a floating point number is read back as the number, with its sign, and has a point or an
exponent. The text of a whole number has digits only, behind a sign, so that the texts of numbers
are told apart.
-/
namespace KeyedRender.Json

open Binary64 (magnitudes)
open Decimal (ReadsAs Written positional scientific)
open Key (isNumberChar)

structure Marked (text : List Char) (position : Nat) : Prop where
  head : ∃ c rest, text = c :: rest ∧ c.isDigit = true
  chars : ∀ c ∈ text, isNumberChar c = true
  mark : '.' ∈ text ∨ 'e' ∈ text
  reads : ReadsAs text position

section Notations

variable {d : Decimal} {digits : List Char} {lead : Int} (h : Written d digits lead)
include h

theorem marked_whole (hwhole : (digits.length : Int) ≤ lead + 1) :
    Marked (positional digits lead ++ ".0".toList) d.position := by
  have hlength : 0 < digits.length := List.length_pos_iff.2 h.ne_nil
  have hlead : 0 ≤ lead := by omega
  have hshort : digits.length ≤ lead.toNat + 1 := by omega
  obtain ⟨c, rest, htext, hc⟩ := @Key.isDigit_head_positional _ lead h.ne_nil h.isDigit
  have hpositional : positional digits lead =
      digits ++ List.replicate (lead.toNat + 1 - digits.length) '0' := by
    simp [positional, Int.not_lt.2 hlead, hshort]
  refine ⟨⟨c, rest ++ ".0".toList, by rw [htext]; rfl, hc⟩, fun c hc => ?_, .inl (by simp), ?_⟩
  · have hmark : ∀ c ∈ ".0".toList, isNumberChar c = true :=
      List.all_eq_true.1 rfl
    exact (List.mem_append.1 hc).elim (Key.isNumberChar_positional h.isDigit c) (hmark c)
  · rw [hpositional]
    exact Decimal.readsAs_whole_point h hlead hshort

theorem marked_fraction (hfraction : ¬ (digits.length : Int) ≤ lead + 1) :
    Marked (positional digits lead) d.position := by
  refine ⟨Key.isDigit_head_positional h.ne_nil h.isDigit, Key.isNumberChar_positional h.isDigit,
    .inl ?_, Decimal.readsAs_positional h⟩
  unfold positional
  split
  · simp
  · have hlong : ¬ digits.length ≤ lead.toNat + 1 := by omega
    simp [hlong]

theorem marked_scientific : Marked (scientific digits lead ['+']) d.position :=
  ⟨Key.isDigit_head_scientific h.ne_nil h.isDigit, Key.isNumberChar_scientific h.isDigit,
    .inr (by simp [scientific]), Decimal.readsAs_scientific h⟩

end Notations

section Floats

theorem marked_magnitudeText {position : Nat} (hlt : position < magnitudes) :
    Marked (magnitudeText position) position := by
  unfold magnitudeText
  split
  · next hzero =>
    subst hzero
    refine ⟨⟨'0', _, rfl, rfl⟩, List.all_eq_true.1 rfl, .inl (by decide +kernel), ['0'], ['0'], [], 0,
      by decide +kernel, by decide +kernel, rfl, by decide +kernel⟩
  next hne =>
    have hpos := Nat.pos_of_ne_zero hne
    have hposition := Decimal.position_shortest .even hpos hlt
    simp only
    generalize Decimal.shortest .even position = d at hposition ⊢
    subst hposition
    have hwritten := Decimal.written_significant (Decimal.coefficient_ne_zero hpos)
    split
    · split
      · next hwhole => exact marked_whole hwritten hwhole
      · next hfraction => exact marked_fraction hwritten hfraction
    · exact marked_scientific hwritten

theorem readBinary64?_floatText (negative : Bool) (position : Binary64.Position) :
    Decimal.readBinary64? (floatText negative position) = some (.finite negative position) := by
  have hmarked := marked_magnitudeText position.isLt
  have hsign := Decimal.readSign_signed negative hmarked.head
  rw [floatText, hmarked.reads.readBinary64? hsign, Binary64.ofPosition, dif_pos position.isLt]

theorem floatText_injective {negative negative' : Bool} {position position' : Binary64.Position}
    (h : floatText negative position = floatText negative' position') :
    negative = negative' ∧ position = position' := by
  have hread := readBinary64?_floatText negative position
  rw [h, readBinary64?_floatText] at hread
  cases hread
  exact ⟨rfl, rfl⟩

end Floats

section Signs

variable {c : Char}

theorem isNumberChar_signed {text : List Char} (negative : Bool)
    (h : ∀ c ∈ text, isNumberChar c = true) :
    ∀ c ∈ (if negative then ['-'] else []) ++ text, isNumberChar c = true := by
  intro c hc
  rcases List.mem_append.1 hc with hc | hc
  · cases negative with
    | true => rw [List.mem_singleton.1 hc]; decide
    | false => cases hc
  · exact h c hc

theorem isDigit_of_mem_toDigits {n : Nat} (h : c ∈ Nat.toDigits 10 n) : c.isDigit = true :=
  Nat.isDigit_of_mem_toDigits (by decide) (by decide) h

theorem intText_eq (n : Int) :
    intText n = (if n < 0 then ['-'] else []) ++ Nat.toDigits 10 n.natAbs := by
  unfold intText
  split <;> rfl

theorem isNumberChar_floatText (negative : Bool) (position : Binary64.Position) :
    ∀ c ∈ floatText negative position, isNumberChar c = true :=
  isNumberChar_signed negative (marked_magnitudeText position.isLt).chars

theorem isNumberChar_intText (n : Int) : ∀ c ∈ intText n, isNumberChar c = true := by
  have hsigned := isNumberChar_signed (decide (n < 0)) fun c hc =>
    Key.isNumberChar_of_isDigit (isDigit_of_mem_toDigits (n := n.natAbs) hc)
  simpa [intText_eq] using hsigned

theorem intText_injective {m n : Int} (h : intText m = intText n) : m = n := by
  have hread : ∀ n : Int, Decimal.readSign (intText n) =
      (decide (n < 0), Nat.toDigits 10 n.natAbs) := by
    intro n
    obtain ⟨c, rest, hdigits⟩ :=
      List.exists_cons_of_ne_nil (@Nat.toDigits_ne_nil n.natAbs 10)
    have hc : c ∈ Nat.toDigits 10 n.natAbs := hdigits ▸ List.mem_cons_self
    have hsign := Decimal.readSign_signed (decide (n < 0))
      ⟨c, rest, hdigits, isDigit_of_mem_toDigits hc⟩
    simpa [intText_eq] using hsign
  have hsame := hread m
  rw [h, hread n, Prod.mk.injEq, decide_eq_decide] at hsame
  have habs := Key.toDigits_injective hsame.2
  omega

theorem intText_ne_floatText (n : Int) (negative : Bool) (position : Binary64.Position) :
    intText n ≠ floatText negative position := by
  intro h
  have hdigits : ∀ c ∈ intText n, c = '-' ∨ c.isDigit = true := by
    intro c hc
    rw [intText_eq] at hc
    rcases List.mem_append.1 hc with hc | hc
    · split at hc
      · exact .inl (List.mem_singleton.1 hc)
      · cases hc
    · exact .inr (isDigit_of_mem_toDigits hc)
  rw [h, floatText] at hdigits
  rcases (marked_magnitudeText position.isLt).mark with hmark | hmark
  · exact absurd (hdigits _ (List.mem_append_right _ hmark)) (by decide)
  · exact absurd (hdigits _ (List.mem_append_right _ hmark)) (by decide)

end Signs

end KeyedRender.Json
