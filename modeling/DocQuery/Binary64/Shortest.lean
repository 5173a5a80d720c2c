import DocQuery.Binary64

set_option autoImplicit false

namespace DocQuery.Binary64

structure Decimal where
  digits : Nat
  exponent : Int
  deriving DecidableEq, Repr, Inhabited

-- All magnitudes below are counted in quarter units of the mantissa, so that the midpoints to
-- both neighbours are integers.

def lowerReach (x : Binary64) : Nat :=
  if x.mantissa = leadingBit ∧ minExponent < x.exponent then 1 else 2

def readsBack (x : Binary64) (digits : Nat) (place : Int) : Bool :=
  let unit := scaleRatio 1 1 (x.exponent - 2)
  let power : Nat × Nat := match place with
    | .ofNat k => (digits * tenTo k, 1)
    | .negSucc k => (digits, tenTo (k + 1))
  let candidate := power.1 * unit.2
  let low := (4 * x.mantissa - x.lowerReach) * (unit.1 * power.2)
  let high := (4 * x.mantissa + 2) * (unit.1 * power.2)
  if x.mantissa % 2 = 0 then decide (low ≤ candidate ∧ candidate ≤ high)
  else decide (low < candidate ∧ candidate < high)

def ratioAt (x : Binary64) (place : Int) : Nat × Nat :=
  let r := x.ratio
  match place with
  | .ofNat k => (r.1, r.2 * tenTo k)
  | .negSucc k => (r.1 * tenTo (k + 1), r.2)

def gridPoint? (x : Binary64) (place : Int) : Option Decimal :=
  let r := x.ratioAt place
  let floor := r.1 / r.2
  let nearest := divHalfEven r.1 r.2
  let other := if nearest = floor then floor + 1 else floor
  if x.readsBack nearest place then some ⟨nearest, place⟩
  else if x.readsBack other place then some ⟨other, place⟩
  else none

def firstGridPoint (x : Binary64) (place : Int) : Nat → Decimal
  | 0 => ⟨divHalfEven (x.ratioAt place).1 (x.ratioAt place).2, place⟩
  | fuel + 1 =>
    match x.gridPoint? place with
    | some point => point
    | none => firstGridPoint x (place - 1) fuel

-- A power of ten above every value of this binary magnitude: 78913 / 262144 exceeds log10 2.
def topPlace (x : Binary64) : Int :=
  ((x.mantissa.log2 : Int) + x.exponent + 1) * 78913 / 262144 + 1

def Decimal.stripZeros (d : Decimal) : Nat → Decimal
  | 0 => d
  | fuel + 1 =>
    if d.digits ≠ 0 ∧ d.digits % 10 = 0 then
      Decimal.stripZeros ⟨d.digits / 10, d.exponent + 1⟩ fuel
    else d

def shortest (x : Binary64) : Decimal :=
  if x.mantissa = 0 then ⟨0, 0⟩
  else (x.firstGridPoint x.topPlace 20).stripZeros 20

structure Layout where
  leastPoint : Int
  greatestPoint : Int

def Layout.text (layout : Layout) (negative : Bool) (d : Decimal) : String :=
  let sign := if negative then "-" else ""
  let digits := (toString d.digits).toList
  let count : Int := digits.length
  let point := count + d.exponent
  if d.digits = 0 then sign ++ "0.0"
  else if layout.leastPoint ≤ point ∧ point ≤ layout.greatestPoint then
    if 0 ≤ d.exponent then
      sign ++ String.ofList (digits ++ List.replicate d.exponent.toNat '0') ++ ".0"
    else if 0 < point then
      sign ++ String.ofList (digits.take point.toNat) ++ "."
        ++ String.ofList (digits.drop point.toNat)
    else sign ++ "0." ++ String.ofList (List.replicate (-point).toNat '0' ++ digits)
  else
    let power := point - 1
    let mark := if power < 0 then "e-" else "e+"
    let fraction := if digits.length ≤ 1 then "" else "." ++ String.ofList (digits.drop 1)
    sign ++ String.ofList (digits.take 1) ++ fraction ++ mark ++ toString power.natAbs

def numberLayout : Layout := ⟨-4, 16⟩

def text (x : Binary64) : String := numberLayout.text x.negative x.shortest

end DocQuery.Binary64
