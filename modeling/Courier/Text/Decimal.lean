/-!
# Decimal numbers

* `Decimal.digits`: the digits of a number, without leading zeros;
* `Decimal.value?`: the number that a run of digits spells, leading zeros allowed;
* `Decimal.unsigned?`: a number as users write it, up to a limit;
* `Decimal.tens`: the powers of ten.
-/

namespace Courier.Decimal

def digit (n : Nat) : Char :=
  Char.ofNat ('0'.toNat + n)

def digits (n : Nat) : List Char :=
  if n < 10 then [digit n] else digits (n / 10) ++ [digit (n % 10)]

def render (n : Nat) : String :=
  String.ofList (digits n)

/-- At least `width` characters, zeros in front. -/
def padded (width n : Nat) : List Char :=
  let ds := digits n
  List.replicate (width - ds.length) '0' ++ ds

def digitValue? (c : Char) : Option Nat :=
  if '0'.toNat ≤ c.toNat ∧ c.toNat ≤ '9'.toNat then some (c.toNat - '0'.toNat) else none

/-- The number spelled by `cs` after digits that spell `sum`. -/
def valueFrom (sum : Nat) : List Char → Option Nat
  | [] => some sum
  | c :: cs => (digitValue? c).bind fun d => valueFrom (10 * sum + d) cs

def value? (cs : List Char) : Option Nat :=
  if cs.isEmpty then none else valueFrom 0 cs

/-- A plus sign may stand in front; a number above `limit` is refused. -/
def unsigned? (limit : Nat) (cs : List Char) : Option Nat :=
  let ds := match cs with
    | '+' :: ds => ds
    | ds => ds
  (value? ds).filter (· ≤ limit)

/-- Ten to the power `k`. -/
def tens (k : Nat) : Nat :=
  Nat.pow 10 k

end Courier.Decimal
