set_option autoImplicit false

namespace DocQuery

/-- The finite binary64 value `± mantissa * 2 ^ exponent`. Rounding produces mantissas below
`2 ^ 53` and exponents from -1074, with the leading bit set unless the exponent is -1074. -/
structure Binary64 where
  negative : Bool
  mantissa : Nat
  exponent : Int
  deriving DecidableEq, Repr, Inhabited

namespace Binary64

def twoTo (k : Nat) : Nat := Nat.pow 2 k

def tenTo (k : Nat) : Nat := Nat.pow 10 k

def leadingBit : Nat := twoTo 52

def minExponent : Int := -1074

def maxExponent : Int := 971

def zero (negative : Bool) : Binary64 := ⟨negative, 0, minExponent⟩

def divHalfEven (num den : Nat) : Nat :=
  let floor := num / den
  let twice := 2 * (num % den)
  if twice < den then floor
  else if den < twice then floor + 1
  else floor + floor % 2

def scaleRatio (num den : Nat) (shift : Int) : Nat × Nat :=
  match shift with
  | .ofNat k => (num * twoTo k, den)
  | .negSucc k => (num, den * twoTo (k + 1))

def exponentFor (num den : Nat) : Int :=
  let guess : Int := (num.log2 : Int) - (den.log2 : Int) - 53
  let scaled := scaleRatio num den (-guess)
  max minExponent (if scaled.1 / scaled.2 < 2 * leadingBit then guess else guess + 1)

def ofRatio (negative : Bool) (num den : Nat) : Option Binary64 :=
  if num = 0 then some (zero negative)
  else
    let exponent := exponentFor num den
    let scaled := scaleRatio num den (-exponent)
    let rounded := divHalfEven scaled.1 scaled.2
    let result : Binary64 :=
      if rounded = 2 * leadingBit then ⟨negative, leadingBit, exponent + 1⟩
      else ⟨negative, rounded, exponent⟩
    if result.exponent ≤ maxExponent then some result else none

def ratio (x : Binary64) : Nat × Nat := scaleRatio x.mantissa 1 x.exponent

def mul (x y : Binary64) : Option Binary64 :=
  ofRatio (x.negative != y.negative) (x.ratio.1 * y.ratio.1) (x.ratio.2 * y.ratio.2)

def div (x y : Binary64) : Option Binary64 :=
  ofRatio (x.negative != y.negative) (x.ratio.1 * y.ratio.2) (x.ratio.2 * y.ratio.1)

-- Powers of ten are themselves rounded; the largest finite one is the 308th.
def maxPowerOfTen : Nat := 308

def powerOfTen (k : Nat) : Option Binary64 := ofRatio false (tenTo k) 1

def scaleDown (x : Binary64) (below : Nat) : Option Binary64 :=
  if x.mantissa = 0 then some x
  else if maxPowerOfTen < below then do
    scaleDown (← div x (← powerOfTen maxPowerOfTen)) (below - maxPowerOfTen)
  else do div x (← powerOfTen below)
termination_by below
decreasing_by have : 0 < maxPowerOfTen := by decide
              omega

/-- `significand * 10 ^ exponent`, rounded after reading the significand and once more after each
scaling step; none when it leaves the finite range. -/
def ofScientific (negative : Bool) (significand : Nat) (exponent : Int) : Option Binary64 := do
  let base ← ofRatio negative significand 1
  match exponent with
  | .ofNat k =>
    if k ≤ maxPowerOfTen then mul base (← powerOfTen k)
    else if base.mantissa = 0 then some base
    else none
  | .negSucc k => scaleDown base (k + 1)

end Binary64

end DocQuery
