/-!
# Binary floating point numbers of 64 bits

A finite number is a sign and a position in the increasing list of finite magnitudes, so that
the next position is the next larger magnitude and equal positions are equal magnitudes. Every
magnitude is a whole number of units of `2 ^ (-1074)`, and rounding is exact arithmetic on
natural numbers: a quotient goes to the nearest magnitude, a tie to the even position.
-/
namespace KeyedRender

/-- How many magnitudes follow each other at one spacing. -/
abbrev Binary64.binade : Nat := 0x10000000000000

abbrev Binary64.magnitudes : Nat := 2047 * Binary64.binade

abbrev Binary64.Position : Type := Fin Binary64.magnitudes

inductive Binary64
  | nan
  | infinite (negative : Bool)
  | finite (negative : Bool) (position : Binary64.Position)
deriving DecidableEq

namespace Binary64

def unitsInOne : Nat := Nat.pow 2 1074

def units (position : Nat) : Nat :=
  if position < binade then position
  else (binade + position % binade) * Nat.pow 2 (position / binade - 1)

/-- The whole number nearest to `num / den`; a tie goes to the even one. -/
def halfEven (num den : Nat) : Nat :=
  let whole := num / den
  let twice := 2 * (num % den)
  if twice < den ∨ (twice = den ∧ whole % 2 = 0) then whole else whole + 1

/-- The position nearest to `num / den`, continued past the finite magnitudes. -/
def nearest (num den : Nat) : Nat :=
  let scaled := num * unitsInOne
  let spacing := Nat.log2 (scaled / den) - 52
  spacing * binade + halfEven scaled (den * Nat.pow 2 spacing)

def ofPosition (negative : Bool) (position : Nat) : Binary64 :=
  if h : position < magnitudes then finite negative ⟨position, h⟩ else infinite negative

def zero : Binary64 := finite false ⟨0, by decide⟩

/-- The number nearest to `num / den`, with the given sign. -/
def ofRatio (negative : Bool) (num den : Nat) : Binary64 :=
  ofPosition negative (nearest num den)

def ofInt (n : Int) : Binary64 :=
  ofRatio (decide (n < 0)) n.natAbs 1

def signBit : Nat := 0x8000000000000000

/-- The number with the given 64 bits: sign, eleven exponent bits, 52 fraction bits. -/
def ofBits (bits : Nat) : Binary64 :=
  let negative := decide (bits / signBit % 2 = 1)
  let rest := bits % signBit
  if rest > magnitudes then nan else ofPosition negative rest

def bits? : Binary64 → Option Nat
  | nan => none
  | infinite negative => some ((if negative then signBit else 0) + magnitudes)
  | finite negative position => some ((if negative then signBit else 0) + position.val)

def ofBits32 (bits : Nat) : Binary64 :=
  let negative := decide (bits / 0x80000000 % 2 = 1)
  let rest := bits % 0x80000000
  if rest > 0x7f800000 then nan
  else if rest = 0x7f800000 then infinite negative
  else
    let small := if rest < 0x800000 then rest
      else (0x800000 + rest % 0x800000) * Nat.pow 2 (rest / 0x800000 - 1)
    ofRatio negative small (Nat.pow 2 149)

def isNaN : Binary64 → Bool
  | nan => true
  | _ => false

def isZero : Binary64 → Bool
  | finite _ position => position.val == 0
  | _ => false

/-- Numeric equality: both zeros are equal, and what is not a number equals nothing. -/
def equals (x y : Binary64) : Bool :=
  if x.isNaN || y.isNaN then false
  else (x.isZero && y.isZero) || decide (x = y)

theorem equals_self {x : Binary64} (h : x.isNaN = false) : x.equals x = true := by
  simp [equals, h]

theorem equals_comm (x y : Binary64) : x.equals y = y.equals x := by
  have swap : decide (x = y) = decide (y = x) := decide_eq_decide.2 eq_comm
  simp only [equals, Bool.or_comm x.isNaN, Bool.and_comm x.isZero, swap]

end Binary64

end KeyedRender
