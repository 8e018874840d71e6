import NodalAlgebra.Decimal.Significant

/-!
# Text of double precision numbers

Decodes the bits of a double precision number and writes its exact value with
twelve significant digits. Infinities, undefined numbers and the negative zero
have names of their own.
-/

namespace NodalAlgebra.Decimal

/-- A double precision number taken apart: a finite one is `mantissa * 2 ^ exponent`
under its sign. -/
inductive Binary where
  | undefined
  | infinite (negative : Bool)
  | finite (negative : Bool) (mantissa : Nat) (exponent : Int)
deriving DecidableEq

/-- The bit of the sign, above all others. -/
def signBit : Nat := 0x8000000000000000

/-- The number of values of the exponent field. -/
def exponentField : Nat := 0x800

/-- The bit in front of the 52 bits of the fraction, with the value of a one that
is understood there. -/
def hiddenBit : Nat := 0x10000000000000

/-- Takes the 64 bits of a number apart: sign, eleven bits of exponent and 52
bits of fraction, in front of which a one is understood unless the exponent
field is zero. -/
def Binary.ofBits (bits : Nat) : Binary :=
  let negative := bits / signBit == 1
  let exponent : Nat := bits / hiddenBit % exponentField
  let fraction : Nat := bits % hiddenBit
  if exponent = exponentField - 1 then
    if fraction = 0 then .infinite negative else .undefined
  else if exponent = 0 then .finite negative fraction (-1074)
  else .finite negative (fraction + hiddenBit) ((exponent : Int) - 1075)

/-- The number of significant digits that are written. -/
def places : Nat := 12

/-- The text of a number: `-2.5e0`, `0e0`, `-0`, `inf`, `NaN`. -/
def Binary.text : Binary → String
  | .undefined => "NaN"
  | .infinite negative => if negative then "-inf" else "inf"
  | .finite negative 0 _ => if negative then "-0" else "0e0"
  | .finite negative mantissa exponent =>
      let (num, den) :=
        if 0 ≤ exponent then (mantissa * Nat.pow 2 exponent.toNat, 1)
        else (mantissa, Nat.pow 2 (-exponent).toNat)
      (if negative then "-" else "") ++ (significant places num den).text

/-- The text of a double precision number. -/
def text (x : Float) : String := (Binary.ofBits x.toBits.toNat).text

/-- Whether the text of a number is a numeral and not one of the names. -/
def isNumeral (x : Float) : Bool :=
  match Binary.ofBits x.toBits.toNat with
  | .finite false _ _ => true
  | .finite true mantissa _ => mantissa != 0
  | _ => false

end NodalAlgebra.Decimal
