import TypeGraph.Binary64

/-! The shortest decimal that reads back as a given number, and its layout. -/

namespace TypeGraph.Binary64

structure Decimal where
  digits : Nat
  exponent : Int
  deriving DecidableEq

/-- The reals that round to a number, measured in quarters of its last binary place: the
number itself, the two ends, and whether the ends round to it too. -/
structure Interval where
  low : Nat
  middle : Nat
  high : Nat
  closed : Bool

/-- Below a power of two the next number is only half as far away. -/
def interval (mantissa : Nat) (exponent : Int) : Interval :=
  let low := if 2 * mantissa = mantissaLimit ∧ leastExponent < exponent then 4 * mantissa - 1
    else 4 * mantissa - 2
  ⟨low, 4 * mantissa, 4 * mantissa + 2, mantissa % 2 = 0⟩

/-- A decimal grid beside the quarters: `digits * 10 ^ place` stands to a quarter as
`digits * grid` to `quarter`. -/
structure Scale where
  grid : Nat
  quarter : Nat

def scale (exponent place : Int) : Scale :=
  let q := exponent - 2
  ⟨ten place.toNat * two (-q).toNat, ten (-place).toNat * two q.toNat⟩

namespace Interval

def contains (i : Interval) (s : Scale) (digits : Nat) : Bool :=
  let x := digits * s.grid
  if i.closed then i.low * s.quarter ≤ x && x ≤ i.high * s.quarter
  else i.low * s.quarter < x && x < i.high * s.quarter

/-- Of the two grid points beside the number, the one inside the interval; of two, the
nearer; of two at the same distance, the even one. -/
def pick? (i : Interval) (s : Scale) : Option Nat :=
  let x := i.middle * s.quarter
  let below := x / s.grid
  let above := below + 1
  match i.contains s below, i.contains s above with
  | true, true =>
    let down := x - below * s.grid
    let up := above * s.grid - x
    some (if down < up then below else if up < down then above
      else if below % 2 = 0 then below else above)
  | true, false => some below
  | false, true => some above
  | false, false => none

end Interval

def belowPower (mantissa : Nat) (exponent power : Int) : Bool :=
  mantissa * two exponent.toNat * ten (-power).toNat < ten power.toNat * two (-exponent).toNat

def decimalPower (mantissa : Nat) (exponent : Int) : Int :=
  let guess := ((Nat.log2 mantissa : Int) + exponent) * 30103 / 100000 - 1
  let candidates := [guess, guess + 1, guess + 2]
  (candidates.find? (belowPower mantissa exponent)).getD (guess + 3)

def Decimal.trim : Nat → Decimal → Decimal
  | 0, d => d
  | fuel + 1, d =>
    if d.digits ≠ 0 ∧ d.digits % 10 = 0 then trim fuel ⟨d.digits / 10, d.exponent + 1⟩ else d

/-- The shortest decimal in the interval of a positive number, and of those the nearest:
seventeen digits always suffice. -/
def shortest (mantissa : Nat) (exponent : Int) : Decimal :=
  let i := interval mantissa exponent
  let power := decimalPower mantissa exponent
  let found := (List.range 17).findSome? fun n =>
    let place := power - (n + 1 : Nat)
    (i.pick? (scale exponent place)).map fun digits => Decimal.mk digits place
  (found.getD ⟨0, 0⟩).trim 17

/-- Digits are written out with zeros up to `10 ^ 21`, and behind the point from `10 ^ -7`
on; other decimals have one digit before the point and a signed power of ten. -/
def Decimal.layout (d : Decimal) : String :=
  let digits := Nat.repr d.digits
  let size := digits.length
  let point : Int := size + d.exponent
  let zeros (n : Int) : String := String.ofList (List.replicate n.toNat '0')
  let before (n : Nat) : String := String.ofList (digits.toList.take n)
  let behind (n : Nat) : String := String.ofList (digits.toList.drop n)
  if size ≤ point ∧ point ≤ 21 then digits ++ zeros (point - size)
  else if 0 < point ∧ point ≤ 21 then before point.toNat ++ "." ++ behind point.toNat
  else if -6 < point ∧ point ≤ 0 then "0." ++ zeros (-point) ++ digits
  else
    let fraction := if size = 1 then "" else "." ++ behind 1
    let sign := if 0 < point then "+" else "-"
    before 1 ++ fraction ++ "e" ++ sign ++ Nat.repr (point - 1).natAbs

def text (infinity : String) (x : Binary64) : String :=
  let sign := if x.negative then "-" else ""
  match x.magnitude with
  | .infinite => sign ++ infinity
  | .finite 0 _ => "0"
  | .finite m e => sign ++ (shortest m e).layout

end TypeGraph.Binary64
