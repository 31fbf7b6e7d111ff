import Courier.Text.Decimal

/-!
# Decimal numbers that were written are read

A number is written with its last digit behind the digits of a tenth of it, so everything here goes
by the same division.

Main results:

* `Decimal.value?_digits` — the digits of a number spell that number.
* `Decimal.isDigit_of_mem_digits`, `Decimal.head?_digits` — they are digits only, and the first of
  them is no zero unless the number is.
* `Decimal.value?_eq_some` — what spells a number at all, and which.
-/

namespace Courier.Decimal

/-- A digit is read as what it was written for. -/
theorem digitValue?_digit {n : Nat} (h : n < 10) : digitValue? (digit n) = some n := by
  have hall : ∀ n < 10, digitValue? (digit n) = some n := by decide
  exact hall n h

/-- It is one. -/
theorem isDigit_digit {n : Nat} (h : n < 10) : (digit n).isDigit = true := by
  have hall : ∀ n < 10, (digit n).isDigit = true := by decide
  exact hall n h

/-- And it is a zero for zero only. -/
theorem digit_ne_zero {n : Nat} (hpos : 0 < n) (h : n < 10) : digit n ≠ '0' := by
  have hall : ∀ n < 10, 0 < n → digit n ≠ '0' := by decide
  exact hall n h hpos

/-- A number has at least one digit. -/
theorem digits_ne_nil (n : Nat) : digits n ≠ [] := by
  rw [digits]
  split <;> simp

/-- And nothing but digits. -/
theorem isDigit_of_mem_digits {n : Nat} {c : Char} (h : c ∈ digits n) : c.isDigit = true := by
  -- by the recursion of the digits
  fun_induction digits n with
  | case1 n hn =>
    rw [List.mem_singleton.mp h]
    exact isDigit_digit hn
  | case2 n hn ih =>
    rcases List.mem_append.mp h with h | h
    · exact ih h
    · rw [List.mem_singleton.mp h]
      exact isDigit_digit (by omega)

/-- The first digit of a number is no zero, unless the number is. -/
theorem head?_digits {n : Nat} (hpos : 0 < n) : (digits n).head? ≠ some '0' := by
  -- by the recursion of the digits; the first one is that of the smallest part
  fun_induction digits n with
  | case1 n hn =>
    intro h
    exact digit_ne_zero hpos hn (Option.some.inj h)
  | case2 n hn ih =>
    have hfirst : (digits (n / 10)).head? ≠ some '0' := ih (by omega)
    rw [List.head?_append]
    cases hd : digits (n / 10) with
    | nil => exact absurd hd (digits_ne_nil _)
    | cons d ds =>
      rw [hd] at hfirst
      exact hfirst

/-- Digits are read from the front, and what they spell is carried on to those behind them. -/
theorem valueFrom_append (sum : Nat) (xs ys : List Char) :
    valueFrom sum (xs ++ ys) = (valueFrom sum xs).bind fun sum => valueFrom sum ys := by
  -- by induction on the digits in front, with the sum that they leave
  induction xs generalizing sum with
  | nil => rfl
  | cons c xs ih =>
    rw [List.cons_append, valueFrom, valueFrom]
    cases digitValue? c with
    | none => rfl
    | some d => exact ih _

/-- **A number is read back from its digits.** -/
theorem valueFrom_digits (n : Nat) : valueFrom 0 (digits n) = some n := by
  -- by the recursion of the digits: ten times what is in front, and the last one
  fun_induction digits n with
  | case1 n hn => simp [valueFrom, digitValue?_digit hn]
  | case2 n hn ih =>
    have hlast : digitValue? (digit (n % 10)) = some (n % 10) := digitValue?_digit (by omega)
    have hsum : 10 * (n / 10) + n % 10 = n := Nat.div_add_mod n 10
    rw [valueFrom_append, ih]
    simp [valueFrom, hlast, hsum]

/-- **The digits of a number spell that number.** -/
theorem value?_digits (n : Nat) : value? (digits n) = some n := by
  rw [value?, if_neg (by simp [digits_ne_nil]), valueFrom_digits]

/-! ## What is read as a number -/

/-- A number is read just from digits, as the number that they are in the usual base. -/
theorem valueFrom_eq_some {sum n : Nat} {cs : List Char} :
    valueFrom sum cs = some n ↔
      (∀ c ∈ cs, c.isDigit = true) ∧ Nat.ofDigitChars 10 cs sum = n := by
  -- by induction on the digits, for any sum before them
  induction cs generalizing sum with
  | nil => simp [valueFrom]
  | cons c cs ih =>
    rw [valueFrom, Nat.ofDigitChars_cons, List.forall_mem_cons, and_assoc, Char.isDigit_iff_toNat]
    by_cases hc : '0'.toNat ≤ c.toNat ∧ c.toNat ≤ '9'.toNat
    · rw [digitValue?, if_pos hc, Option.bind_some, ih, and_iff_right hc]
    · rw [digitValue?, if_neg hc, Option.bind_none]
      exact ⟨(fun h => nomatch h), fun h => absurd h.1 hc⟩

/-- Any digits spell a number, with zeros in front or without. -/
theorem value?_eq_some {n : Nat} {cs : List Char} :
    value? cs = some n ↔
      cs ≠ [] ∧ (∀ c ∈ cs, c.isDigit = true) ∧ Nat.ofDigitChars 10 cs 0 = n := by
  unfold value?
  cases cs with
  | nil => simp
  | cons c cs => simp [valueFrom_eq_some]

/-- A plus in front of a number is passed over. -/
theorem unsigned?_plus (limit : Nat) (digits : List Char) :
    unsigned? limit ('+' :: digits) = (value? digits).filter (· ≤ limit) :=
  rfl

/-- Without one the number is read at once. -/
theorem unsigned?_of_head (limit : Nat) {cs : List Char} (h : cs.head? ≠ some '+') :
    unsigned? limit cs = (value? cs).filter (· ≤ limit) := by
  unfold unsigned?
  split
  · exact absurd rfl h
  · rfl

/-- Digits do not begin with a plus sign. -/
theorem head?_ne_plus {digits : List Char} (h : ∀ c ∈ digits, c.isDigit = true) :
    digits.head? ≠ some '+' := by
  intro hplus
  have hdigit := h '+' (List.mem_of_head? hplus)
  simp at hdigit

end Courier.Decimal
