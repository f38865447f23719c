import SolidModel.Numeral.Rounded

/-!
# The fewest digits that read back

A double is written with the fewest decimal digits that still round to it, and of the decimals
of that length with the nearest. The reals that round to `m · 2 ^ e` form an interval around it,
closed exactly if `m` is even; for one digit, two digits, … the two neighbours of the value on
that decimal grid are tested against the interval, in natural arithmetic.

`Layout` says how the digits are set out: positionally between two powers of ten, else behind
one digit with a power of ten.
-/

namespace SolidModel.Numeral

/-- Digits `d₁d₂…` read as `d₁.d₂… · 10 ^ exponent`. -/
structure Digits where
  digits : Nat
  exponent : Int
  deriving DecidableEq

/-- The interval of reals that round to a positive double, and the double itself, all in units
of `1 / denominator`. -/
structure Interval where
  low : Nat
  middle : Nat
  high : Nat
  denominator : Nat
  closed : Bool

/-- Half a gap to either side, the lower gap being half as wide just above a power of two. -/
def Interval.around (b : Binary) : Interval :=
  let unit := 2 ^ (b.exponent - 2).toNat
  let lower := if b.mantissa = leadingBit ∧ b.exponent ≠ -1074 then 1 else 2
  ⟨(4 * b.mantissa - lower) * unit, 4 * b.mantissa * unit, (4 * b.mantissa + 2) * unit,
    2 ^ (2 - b.exponent).toNat, b.mantissa % 2 == 0⟩

/-- Is `c` units of `10 ^ unit` in the interval? -/
def Interval.holds (i : Interval) (c : Nat) (unit : Int) : Bool :=
  let here := c * 10 ^ unit.toNat * i.denominator
  let scale := 10 ^ (-unit).toNat
  if i.closed then decide (i.low * scale ≤ here) && decide (here ≤ i.high * scale)
  else decide (i.low * scale < here) && decide (here < i.high * scale)

/-- The nearer of the two neighbours on the grid of `10 ^ unit` that lies in the interval. -/
def Interval.neighbour? (i : Interval) (unit : Int) : Option Nat :=
  let (n, d) := inUnits i.middle i.denominator unit
  let below := n / d
  match i.holds below unit, i.holds (below + 1) unit with
  | true, true => some (roundDiv n d)
  | true, false => some below
  | false, true => some (below + 1)
  | false, false => none

/-- The first grid with a hit, from `count` more digits after the `seen` that did not suffice;
seventeen always do. -/
def Interval.shortest (i : Interval) (k : Int) : (count seen : Nat) → Digits
  | 0, seen =>
    let (n, d) := inUnits i.middle i.denominator (k - seen)
    ⟨roundDiv n d, k⟩
  | count + 1, seen =>
    match i.neighbour? (k - seen) with
    | some c => if c < 10 ^ (seen + 1) then ⟨c, k⟩ else ⟨c / 10, k + 1⟩
    | none => i.shortest k count (seen + 1)

/-- The fewest digits that read back as the positive double `b`. -/
def Binary.shortest (b : Binary) : Digits :=
  (Interval.around b).shortest (decimalExponent b.numerator b.denominator) 17 0

/-- How digits are set out. -/
structure Layout where
  /-- The least power of ten of the leading digit that is written positionally. -/
  least : Int
  /-- The first power of ten that no longer is. -/
  most : Int

/-- Numbers in messages: positional from `0.0001` to below `10 ^ 16`, and with at least one
digit after the point. -/
def Layout.plain : Layout := ⟨-4, 16⟩

/-- The digits in positional notation. -/
def Digits.positional (d : Digits) : String :=
  let text := Nat.repr d.digits
  let behind : Int := (text.length : Int) - 1 - d.exponent
  if behind ≤ 0 then text.pushn '0' (-behind).toNat ++ ".0"
  else
    let scale := 10 ^ behind.toNat
    Nat.repr (d.digits / scale) ++ "." ++ padded behind.toNat (d.digits % scale)

/-- The digits in the notation that the layout chooses. -/
def Digits.text (d : Digits) (layout : Layout) : String :=
  if layout.least ≤ d.exponent ∧ d.exponent < layout.most then d.positional
  else pointed (Nat.repr d.digits) ++ exponentText d.exponent

/-- `x` with the fewest digits that read back. -/
def shortest (x : Float) : String :=
  (Double.ofFloat x).text fun b => b.signed <|
    if b.mantissa = 0 then "0.0" else b.shortest.text .plain

end SolidModel.Numeral
