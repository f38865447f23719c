/-!
# Doubles as exact binary numbers

Texts of numbers are decided by the exact value of a double, never by another rounding. This
module reads a double off its bit pattern as `± m · 2 ^ e` with a natural `m`, so that every
later question (which decimal digits, which integer part, which remainder) is one about natural
numbers.
-/

namespace SolidModel.Numeral

-- Powers of naturals are those of the core library, whatever other powers are in sight.
attribute [scoped instance (2000)] instPowNat

/-- The finite number `± mantissa · 2 ^ exponent`. -/
structure Binary where
  negative : Bool
  mantissa : Nat
  exponent : Int
  deriving DecidableEq

namespace Binary

/-- The magnitude is `numerator / denominator`. -/
def numerator (b : Binary) : Nat := b.mantissa * 2 ^ b.exponent.toNat

/-- The power of two below `numerator`. -/
def denominator (b : Binary) : Nat := 2 ^ (-b.exponent).toNat

/-- The integer part: the digits after the point are dropped, toward zero. -/
def truncate (b : Binary) : Int :=
  let whole : Int := (b.numerator / b.denominator : Nat)
  if b.negative then -whole else whole

end Binary

/-- What the bit pattern of a double stands for. -/
inductive Double where
  | nan
  | infinite (negative : Bool)
  | finite (value : Binary)
  deriving DecidableEq

/-- What the implied leading bit of a mantissa counts for: there are 52 bits behind it. -/
def leadingBit : Nat := 2 ^ (52 : Nat)

/-- Sign, eleven exponent bits and 52 fraction bits, the leading bit of the mantissa being
implied unless the exponent bits are all zero. -/
def Double.ofBits (bits : Nat) : Double :=
  let negative := bits.testBit 63
  let scale := bits / leadingBit % 2048
  let fraction := bits % leadingBit
  if scale = 2047 then
    if fraction = 0 then .infinite negative else .nan
  else if scale = 0 then .finite ⟨negative, fraction, -1074⟩
  else .finite ⟨negative, leadingBit + fraction, (scale : Int) - 1075⟩

/-- The meaning of a double. -/
def Double.ofFloat (x : Float) : Double := .ofBits x.toBits.toNat

/-! ## Integer part and remainder -/

/-- What remains of the magnitude after whole multiples of `divisor` are taken away; exact, since
the remainder has no more binary digits than the magnitude. -/
def Binary.remainder (b : Binary) (divisor : Nat) : Float :=
  let halvings := (-b.exponent).toNat
  .ofScientific (b.numerator % (divisor * b.denominator) * 5 ^ halvings) true halvings

/-- The integer part of a double, toward zero; of what is not finite, zero. -/
def integerPart (x : Float) : Int :=
  match Double.ofFloat x with
  | .finite b => b.truncate
  | _ => 0

/-- The remainder of a double modulo `divisor`, not negative: that of a negative number is
brought up by one `divisor`, in a rounded sum. What is not finite has none. -/
def remainder (x : Float) (divisor : Nat) : Float :=
  match Double.ofFloat x with
  | .finite b =>
    let rest := b.remainder divisor
    if rest == 0.0 then 0.0
    else if b.negative then -rest + .ofNat divisor
    else rest
  | _ => x - x

end SolidModel.Numeral
