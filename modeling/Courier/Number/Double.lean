import Courier.Text.Decimal

/-!
# Double precision

Durations are reported in seconds as IEEE double precision numbers. A finite one is kept as
its exact value, a signed multiple of a power of two, so the decimals written for it are those
of that value.

* `Double.ofQuotient`: the double nearest to a quotient, a tie going to the even one;
* `Double.fixed`: a given number of decimals, again with ties to even.
-/

namespace Courier

inductive Double where
  | notANumber
  | infinite (negative : Bool)
  /-- The number `mantissa * 2 ^ exponent`, negated if so flagged. -/
  | finite (negative : Bool) (mantissa : Nat) (exponent : Int)
deriving DecidableEq, Repr, Inhabited

namespace Double

/-- The whole number nearest to `num / den`; a tie goes to the even neighbour. -/
def roundEven (num den : Nat) : Nat :=
  let whole := num / den
  let twice := 2 * (num % den)
  if twice < den then whole
  else if den < twice then whole + 1
  else whole + whole % 2

/-- `num / den * 2 ^ shift`, rounded to a whole number. -/
def roundScaled (num den : Nat) (shift : Int) : Nat :=
  if 0 ≤ shift then roundEven (num <<< shift.toNat) den
  else roundEven num (den <<< (-shift).toNat)

/-- How many binary places after the point (before it, if negative) a double next to
`num / den` has. The first guess from the lengths of the two numbers is at most one too many. -/
def places (num den : Nat) : Int :=
  let guess : Int := 53 + Nat.log2 den - Nat.log2 num
  let fits := if 0 ≤ guess then num <<< guess.toNat < den <<< 53
    else num < den <<< (53 + (-guess).toNat)
  min 1074 (if fits then guess else guess - 1)

/-- The double nearest to `num / den`. -/
def ofQuotient (num den : Nat) : Double :=
  if num = 0 then finite false 0 0
  else
    let shift := places num den
    finite false (roundScaled num den shift) (-shift)

def ofNat (n : Nat) : Double :=
  ofQuotient n 1

/-- A finite value without its sign, as a quotient. -/
def quotient (mantissa : Nat) (exponent : Int) : Nat × Nat :=
  if 0 ≤ exponent then (mantissa <<< exponent.toNat, 1)
  else (mantissa, 1 <<< (-exponent).toNat)

/-- Addition of the magnitudes of two numbers, both taken to be finite. -/
def addMagnitudes : Double → Double → Double
  | finite _ m e, finite _ m' e' =>
    let (n, d) := quotient m e
    let (n', d') := quotient m' e'
    ofQuotient (n * d' + n' * d) (d * d')
  | _, _ => notANumber

/-- The decimals of a non-negative quotient, rounded at the last of them. -/
def fixedQuotient (decimals num den : Nat) : List Char :=
  let scaled := roundEven (num * Decimal.tens decimals) den
  Decimal.digits (scaled / Decimal.tens decimals) ++
    (if decimals = 0 then [] else '.' :: Decimal.padded decimals (scaled % Decimal.tens decimals))

def fixed (decimals : Nat) : Double → String
  | notANumber => "NaN"
  | infinite negative => if negative then "-inf" else "inf"
  | finite negative m e =>
    let (num, den) := quotient m e
    String.ofList ((if negative then ['-'] else []) ++ fixedQuotient decimals num den)

/-- A duration in nanoseconds as seconds: whole seconds and the fraction are each made a
double, then added. -/
def seconds (nanos : Nat) : Double :=
  addMagnitudes (ofNat (nanos / 1000000000)) (ofQuotient (nanos % 1000000000) 1000000000)

example : (seconds 1500000000).fixed 3 = "1.500" := by decide +kernel
example : (seconds 2500000).fixed 2 = "0.00" := by decide +kernel

end Double

end Courier
