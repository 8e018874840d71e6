/-!
# Significant decimal digits

Writes a positive fraction with a fixed number of significant decimal digits:
the nearest decimal of that many digits, a tie going to the even digit, with one
digit in front of the point. `roundDiv_near` says that the rounding is to a
nearest number and `roundDiv_tie_even` which of two it takes.
-/

namespace NodalAlgebra.Decimal

/-! ## Rounding a quotient -/

/-- The natural number nearest to `num / den`; halfway between two, the even one. -/
def roundDiv (num den : Nat) : Nat :=
  let q := num / den
  let r := num % den
  if 2 * r < den then q
  else if den < 2 * r then q + 1
  else if q % 2 = 0 then q else q + 1

/-- The rounded quotient is at most half a unit away. -/
theorem roundDiv_near (num den : Nat) (h : 0 < den) :
    2 * (roundDiv num den * den) ≤ 2 * num + den
      ∧ 2 * num ≤ 2 * (roundDiv num den * den) + den := by
  have hdiv := Nat.div_add_mod num den
  have hmod := Nat.mod_lt num h
  have hcomm : num / den * den = den * (num / den) := Nat.mul_comm ..
  have hsucc : (num / den + 1) * den = den * (num / den) + den := by
    rw [Nat.add_mul, hcomm, Nat.one_mul]
  simp only [roundDiv]
  split
  · rw [hcomm]; omega
  · split
    · rw [hsucc]; omega
    · split
      · rw [hcomm]; omega
      · rw [hsucc]; omega

/-- A quotient halfway between two numbers is rounded to the even one. -/
theorem roundDiv_tie_even (num den : Nat) (h : 2 * (num % den) = den) :
    roundDiv num den % 2 = 0 := by
  simp only [roundDiv, h, Nat.lt_irrefl, if_false]
  split
  · assumption
  · omega

/-! ## Scientific digits -/

/-- A decimal in scientific form: its digits, read as one number, with the point
behind the first of them, times a power of ten. -/
structure Scientific where
  digits : Nat
  exponent : Int
deriving DecidableEq

/-- The number of decimal digits of a positive number. -/
def digitCount (n : Nat) : Nat := n.repr.length

/-- The fraction `num / den` times a power of ten, as a fraction again. -/
def scale (num den : Nat) (power : Int) : Nat × Nat :=
  if 0 ≤ power then (num * Nat.pow 10 power.toNat, den)
  else (num, den * Nat.pow 10 (-power).toNat)

/-- The power of ten of the leading digit of `num / den`: with as many digits in
the numerator as in the denominator the quotient lies between a tenth and ten. -/
def leadingPower (num den : Nat) : Int :=
  let guess : Int := (digitCount num : Int) - (digitCount den : Int)
  let (n, d) := scale num den (-guess)
  if d ≤ n then guess else guess - 1

/-- The positive fraction `num / den` with `places` significant digits. Rounding
up to a further digit moves the point. -/
def significant (places num den : Nat) : Scientific :=
  let power := leadingPower num den
  let (n, d) := scale num den ((places : Int) - 1 - power)
  let digits := roundDiv n d
  if digits = Nat.pow 10 places then ⟨Nat.pow 10 (places - 1), power + 1⟩ else ⟨digits, power⟩

/-! ## Text -/

/-- The digits of a list without the zeros at its end. -/
def dropTrailingZeros (digits : List Char) : List Char :=
  (digits.reverse.dropWhile (· == '0')).reverse

/-- `d.ddde-xx`: trailing zeros of the mantissa are left out, and the point with
the last of them. -/
def Scientific.text (s : Scientific) : String :=
  let fraction := dropTrailingZeros (s.digits.repr.toList.drop 1)
  let point := if fraction.isEmpty then [] else '.' :: fraction
  String.ofList (s.digits.repr.toList.take 1 ++ point) ++ "e" ++ s.exponent.repr

end NodalAlgebra.Decimal
