import ContractApi.Text.Basic
/-!
# Binary floating-point numbers

A `Binary64` is a number `m · 2^q` of at most 53 binary digits, an infinity, or not a number. Numbers are held exactly,
so nothing here rests on machine arithmetic.

- `Binary64.ofScaled` rounds `digits · 10^exponent` to the nearest number, a tie to the one with an even last digit.
- `Binary64.shortest` finds the fewest decimal digits that lie in the interval of reals rounding to the number.
- `Binary64.plain` lays them out: positionally for exponents from -4 to 15, otherwise with `e` and a signed exponent of
  at least two digits.
-/

namespace ContractApi

/-- A binary floating-point number of 64 bits. -/
inductive Binary64 where
  /-- The number `mantissa · 2^exponent`, or its negative. The mantissa has 53 binary digits, or fewer if the exponent is
  the least one, -1074. -/
  | finite (negative : Bool) (mantissa : Nat) (exponent : Int)
  /-- An infinity. -/
  | infinity (negative : Bool)
  /-- Not a number. -/
  | nan
deriving DecidableEq, Repr

namespace Binary64

def zero (negative : Bool) : Binary64 := .finite negative 0 (-1074)

/-- The quotient rounded to the nearest natural number, a tie to the even neighbour. -/
def roundQuotient (numerator denominator : Nat) : Nat :=
  let q := numerator / denominator
  let r := 2 * (numerator % denominator)
  if r < denominator ∨ (r = denominator ∧ q % 2 = 0) then q else q + 1

/-- Two to the power of a number, one if the number is negative. -/
def twoTo (n : Int) : Nat := Nat.pow 2 n.toNat

/-- Ten to the power of a number, one if the number is negative. -/
def tenTo (n : Int) : Nat := Nat.pow 10 n.toNat

/-- The leading bit of a mantissa, which has 53 bits unless the number is close to zero. -/
def leadingBit : Nat := Nat.pow 2 52

/-- The number nearest to a positive quotient. -/
def ofQuotient (negative : Bool) (numerator denominator : Nat) : Binary64 :=
  -- the quotient lies between `2^(scale - 1)` and `2^(scale + 1)`
  let scale : Int := (numerator.log2 : Int) - denominator.log2
  let above := if 0 ≤ scale then denominator * twoTo scale ≤ numerator
    else denominator ≤ numerator * twoTo (-scale)
  let exponent := max ((if above then scale else scale - 1) - 52) (-1074)
  let mantissa :=
    if 0 ≤ exponent then roundQuotient numerator (denominator * twoTo exponent)
    else roundQuotient (numerator * twoTo (-exponent)) denominator
  let (mantissa, exponent) := if mantissa = 2 * leadingBit then (leadingBit, exponent + 1) else (mantissa, exponent)
  if 971 < exponent then .infinity negative else .finite negative mantissa exponent

/-- The number nearest to `digits · 10^exponent`. -/
def ofScaled (negative : Bool) (digits : Nat) (exponent : Int) : Binary64 :=
  -- the leading digit decides most exponents without a large power of ten
  let leading : Int := (Nat.toDigits 10 digits).length + exponent
  if digits = 0 ∨ leading < -330 then zero negative
  else if 310 < leading then .infinity negative
  else if 0 ≤ exponent then ofQuotient negative (digits * tenTo exponent) 1
  else ofQuotient negative digits (tenTo (-exponent))

/-- Whether the number is zero. -/
def isZero : Binary64 → Bool
  | .finite _ m _ => m = 0
  | _ => false

/-- The integer that the number equals, if there is one. -/
def toInt? : Binary64 → Option Int
  | .finite negative m q =>
    let magnitude : Option Nat :=
      if 0 ≤ q then some (m * twoTo q)
      else if m % twoTo (-q) = 0 then some (m / twoTo (-q))
      else none
    magnitude.map fun n => if negative then -(n : Int) else n
  | _ => none

def compareScaled (a : Nat) (i : Int) (n : Nat) (j : Int) : Ordering :=
  compare (a * tenTo i * twoTo (-j)) (n * twoTo j * tenTo (-i))

/-- Whether `digits · 10^exponent` lies among the reals that round to `m · 2^q`. They reach halfway to both neighbours,
ends included if `m` is even; below a power of two the neighbour is half as far away as above. -/
def readsBack (m : Nat) (q : Int) (digits : Nat) (exponent : Int) : Bool :=
  let below := if m = leadingBit ∧ -1074 < q then 4 * m - 1 else 4 * m - 2
  let even := m % 2 == 0
  let fromLow := compareScaled digits exponent below (q - 2)
  let fromHigh := compareScaled digits exponent (4 * m + 2) (q - 2)
  (fromLow == .gt || (even && fromLow == .eq)) && (fromHigh == .lt || (even && fromHigh == .eq))

/-- The least `k` with `m · 2^q < 10^k`, for a positive `m`. -/
def decimalScale (m : Nat) (q : Int) : Int :=
  -- a binary digit is worth 0.30103 decimal digits, which is one too few at worst
  let guess := ((m.log2 : Int) + q) * 30103 / 100000
  ((List.range 4).map fun i : Nat => guess - 1 + (i : Int)).find? (fun k => compareScaled 1 k m q == .gt)
    |>.getD (guess + 3)

/-- Of the two neighbours of `m · 2^q` among the multiples of `10^place`, the one that reads back; of two the nearer, a
tie to the even one. -/
def neighbourAt? (m : Nat) (q place : Int) : Option Nat :=
  let numerator := m * twoTo q * tenTo (-place)
  let denominator := twoTo (-q) * tenTo place
  let lower := numerator / denominator
  match readsBack m q lower place, readsBack m q (lower + 1) place with
  | true, true => some (roundQuotient numerator denominator)
  | true, false => some lower
  | false, true => some (lower + 1)
  | false, false => none

/-- The decimal of fewest digits that rounds to `m · 2^q`, as an integer and an exponent of ten; `m` is positive. No
number needs more than 17 digits. -/
def shortest (m : Nat) (q : Int) : Nat × Int :=
  let scale := decimalScale m q
  let found := ((List.range 17).map fun n => scale - ((n + 1 : Nat) : Int)).findSome? fun place =>
    (neighbourAt? m q place).map fun digits => (digits, place)
  found.getD (m * twoTo q * Nat.pow 5 (-q).toNat, min q 0)

/-- Lays out decimal digits, the first of which is worth `10^lead`. A whole number ends in `.0` if `pointZero` is set. -/
def layOut (pointZero : Bool) (digits : Text) (lead : Int) : Text :=
  let zeros (n : Int) : Text := List.replicate n.toNat '0'
  if -4 ≤ lead ∧ lead < 16 then
    if lead < 0 then "0." ++ zeros (-lead - 1) ++ digits
    else
      let whole := digits.take (lead.toNat + 1) ++ zeros (lead + 1 - digits.length)
      match digits.drop (lead.toNat + 1) with
      | [] => if pointZero then whole ++ ".0" else whole
      | fraction => whole ++ "." ++ fraction
  else
    let exponent := Text.ofNat lead.natAbs
    let fraction : Text := if digits.length ≤ 1 then [] else "." ++ digits.drop 1
    digits.take 1 ++ fraction ++ (if lead < 0 then "e-" else "e+") ++ zeros (2 - exponent.length) ++ exponent

/-- The text of the number `m · 2^q` without its sign. -/
def magnitudeText (pointZero : Bool) (m : Nat) (q : Int) : Text :=
  if m = 0 then layOut pointZero "0" 0
  else
    let (digits, exponent) := shortest m q
    let written := Text.ofNat digits
    let significant := (written.reverse.dropWhile fun c : CodePoint => c = '0').reverse
    layOut pointZero significant (written.length - 1 + exponent)

/-- The text of a number; infinities and what is not a number have the names given. -/
def text (pointZero : Bool) (infinityName nanName : Text) : Binary64 → Text
  | .finite negative m q => (if negative then "-" else "") ++ magnitudeText pointZero m q
  | .infinity negative => (if negative then "-" else "") ++ infinityName
  | .nan => nanName

/-- The number as messages show it: a whole number has `.0` behind it. -/
def plain (x : Binary64) : Text := x.text true "inf" "nan"

end Binary64

end ContractApi
