import KeyedRender.Decimal.Reading

/-!
# The shortest decimal of a binary number

Of the decimal numbers that read back as a given binary magnitude, the shortest is one with the
fewest digits, and among those the nearest. Grids of one to seventeen digits are tried in turn:
on each, only the two neighbours of the magnitude can be nearest, and both are read back. Which
of two equally near decimals is taken is left to the caller.
-/
namespace KeyedRender.Decimal

inductive TieRule
  | up
  | even
deriving DecidableEq

/-- The exponent of the leading decimal digit of `num / den`, for `0 < num` and `0 < den`. -/
def leadingExponent (num den : Nat) : Int :=
  if num < den then -(digitCount ((den + num - 1) / num - 1) : Int)
  else digitCount (num / den) - 1

def TieRule.takesLow (rule : TieRule) (low : Nat) : Bool :=
  match rule with
  | .up => false
  | .even => low % 2 == 0

/-- The decimal on the grid `10 ^ scale` that reads back as `position` and is nearest to it. -/
def onGrid? (rule : TieRule) (position : Nat) (scale : Int) : Option Decimal :=
  let num := Binary64.units position * Nat.pow 10 (-scale).toNat
  let den := Binary64.unitsInOne * Nat.pow 10 scale.toNat
  let low := num / den
  let reads := fun c => decide (toBinary64 false ⟨c, scale⟩ = .ofPosition false position)
  let twice := 2 * (num % den)
  if reads low && (!reads (low + 1) || twice < den || (twice = den && rule.takesLow low)) then
    some ⟨low, scale⟩
  else if reads (low + 1) then some ⟨low + 1, scale⟩
  else none

/-- Every binary magnitude is itself a decimal number with finitely many digits. -/
def exact (position : Nat) : Decimal :=
  ⟨Binary64.units position * Nat.pow 5 1074, -1074⟩

def shortest (rule : TieRule) (position : Nat) : Decimal :=
  let lead := leadingExponent (Binary64.units position) Binary64.unitsInOne
  ((List.range 17).findSome? fun (k : Nat) => onGrid? rule position (lead - k)).getD (exact position)

def significant (d : Decimal) : List Char :=
  ((Nat.toDigits 10 d.coefficient).reverse.dropWhile (· == '0')).reverse

def leading (d : Decimal) : Int :=
  digitCount d.coefficient - 1 + d.scale

def positional (digits : List Char) (lead : Int) : List Char :=
  if lead < 0 then '0' :: '.' :: (List.replicate (-lead - 1).toNat '0' ++ digits)
  else
    let before := lead.toNat + 1
    if digits.length ≤ before then digits ++ List.replicate (before - digits.length) '0'
    else digits.take before ++ '.' :: digits.drop before

def scientific (digits : List Char) (lead : Int) (plus : List Char) : List Char :=
  let mantissa := match digits with
    | [] => ['0']
    | [d] => [d]
    | d :: rest => d :: '.' :: rest
  mantissa ++ 'e' :: (if lead < 0 then '-' :: Nat.toDigits 10 lead.natAbs
    else plus ++ Nat.toDigits 10 lead.natAbs)

end KeyedRender.Decimal
