set_option autoImplicit false

/-!
# Shortest decimal text of a binary64 number

A binary64 number is written with the fewest decimal digits that read back as the same number; of
two equally short candidates the nearer one is taken. All arithmetic is on natural numbers.
-/

namespace LiveResource.Decimal

structure Binary64 where
  negative : Bool
  mantissa : Nat
  exponent : Int
deriving DecidableEq, Repr

/-- The number that 64 bits encode, if it is finite. -/
def Binary64.ofBits (bits : UInt64) : Binary64 :=
  let n : Nat := bits.toNat
  let fraction : Nat := n % Nat.pow 2 52
  let biased : Nat := n / Nat.pow 2 52 % Nat.pow 2 11
  if biased = 0 then ⟨n / Nat.pow 2 63 = 1, fraction, -1074⟩
  else ⟨n / Nat.pow 2 63 = 1, fraction + Nat.pow 2 52, (biased : Int) - 1075⟩

structure Scaled where
  digits : Nat
  exponent : Int
deriving DecidableEq, Repr

/-- The reals that round to a positive number, as numerators over one denominator. -/
structure Interval where
  low : Nat
  value : Nat
  high : Nat
  denominator : Nat
  closed : Bool

/-- Half a unit in the last place to either side, a quarter below a power of two whose lower
    neighbours lie closer together. -/
def Binary64.interval (x : Binary64) : Interval :=
  let below := if x.mantissa = Nat.pow 2 52 ∧ x.exponent > -1074 then 1 else 2
  let up := Nat.pow 2 (x.exponent - 2).toNat
  { low := (4 * x.mantissa - below) * up
    value := 4 * x.mantissa * up
    high := (4 * x.mantissa + 2) * up
    denominator := Nat.pow 2 (2 - x.exponent).toNat
    closed := x.mantissa % 2 = 0 }

def digitCount (n : Nat) : Nat := (Nat.toDigits 10 n).length

/-- The power of ten of the first digit of a positive number `value / denominator`. -/
def leading (value denominator : Nat) : Int :=
  if denominator ≤ value then (digitCount (value / denominator) : Int) - 1
  else -(digitCount ((denominator + value - 1) / value - 1) : Int)

/-- Whether `digits · 10 ^ exponent` lies in the interval. -/
def Interval.holds (i : Interval) (c : Scaled) : Bool :=
  let scaled := c.digits * i.denominator * Nat.pow 10 c.exponent.toNat
  let down := Nat.pow 10 (-c.exponent).toNat
  if i.closed then i.low * down ≤ scaled ∧ scaled ≤ i.high * down
  else i.low * down < scaled ∧ scaled < i.high * down

/-- The candidates next to the value on one decimal grid: the nearer of those in the interval,
    of two equally near ones the even one. -/
def Interval.onGrid (i : Interval) (exponent : Int) : Option Scaled :=
  let up := i.value * Nat.pow 10 (-exponent).toNat
  let step := i.denominator * Nat.pow 10 exponent.toNat
  let lower : Scaled := ⟨up / step, exponent⟩
  let upper : Scaled := ⟨up / step + 1, exponent⟩
  match i.holds lower, i.holds upper with
  | true, true =>
    let twice := 2 * (up % step)
    if twice < step then some lower
    else if step < twice then some upper
    else if lower.digits % 2 = 0 then some lower else some upper
  | true, false => some lower
  | false, true => some upper
  | false, false => none

/-- The first grid with a hit, trying `fuel` grids from coarse to fine. -/
def Interval.search (i : Interval) (exponent : Int) : Nat → Option Scaled
  | 0 => none
  | fuel + 1 => i.onGrid exponent <|> i.search (exponent - 1) fuel

def Scaled.trim (s : Scaled) : Nat → Scaled
  | 0 => s
  | fuel + 1 => if s.digits % 10 = 0 then Scaled.trim ⟨s.digits / 10, s.exponent + 1⟩ fuel else s

/-- The shortest decimal number that reads back as a positive number. Seventeen digits always
    suffice. -/
def Binary64.shortest (x : Binary64) : Scaled :=
  let i := x.interval
  match i.search (leading i.value i.denominator) 17 with
  | some s => s.trim 17
  | none => ⟨0, 0⟩

/-- Where positional notation ends: the least and the greatest power of ten of the first digit. -/
structure Style where
  least : Int
  greatest : Int

def zeros (n : Nat) : List Char := List.replicate n '0'

def positional (digits : List Char) (exponent : Int) : List Char :=
  let point : Int := exponent + digits.length
  if 0 ≤ exponent then digits ++ zeros exponent.toNat ++ ['.', '0']
  else if 0 < point then digits.take point.toNat ++ '.' :: digits.drop point.toNat
  else '0' :: '.' :: zeros (-point).toNat ++ digits

def scientific (digits : List Char) (first : Int) : List Char :=
  let mantissa := match digits with
    | [] => ['0']
    | [d] => [d]
    | d :: rest => d :: '.' :: rest
  let sign := if first < 0 then '-' else '+'
  mantissa ++ 'e' :: sign :: Nat.toDigits 10 first.natAbs

def Binary64.text (style : Style) (x : Binary64) : List Char :=
  let magnitude :=
    if x.mantissa = 0 then ['0', '.', '0']
    else
      let s := x.shortest
      let digits := Nat.toDigits 10 s.digits
      let first : Int := s.exponent + digits.length - 1
      if style.least ≤ first ∧ first ≤ style.greatest then positional digits s.exponent
      else scientific digits first
  if x.negative then '-' :: magnitude else magnitude

end LiveResource.Decimal
