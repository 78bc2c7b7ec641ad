/-! Numbers of the 64-bit binary format, in exact arithmetic: the number nearest to a
decimal, a tie going to the even neighbour. -/

namespace TypeGraph

/-- A finite magnitude is `mantissa * 2 ^ exponent`, with a mantissa below `2 ^ 53` that is
at least `2 ^ 52` unless the exponent is the least one, `-1074`. -/
inductive Magnitude where
  | finite (mantissa : Nat) (exponent : Int)
  | infinite
  deriving DecidableEq, Inhabited

structure Binary64 where
  negative : Bool
  magnitude : Magnitude
  deriving DecidableEq, Inhabited

namespace Binary64

def two (n : Nat) : Nat := Nat.pow 2 n

def ten (n : Nat) : Nat := Nat.pow 10 n

def mantissaLimit : Nat := 9007199254740992

def leastExponent : Int := -1074

def greatestExponent : Int := 971

def isZero (x : Binary64) : Bool := x.magnitude == .finite 0 leastExponent

/-- The natural number nearest to `num / den`, the even one of two. -/
def roundDiv (num den : Nat) : Nat :=
  let q := num / den
  let r := num % den
  if 2 * r < den then q else if den < 2 * r then q + 1 else q + q % 2

def mantissaAt (num den : Nat) (exponent : Int) : Nat :=
  roundDiv (num * two (-exponent).toNat) (den * two exponent.toNat)

def exponentOf (num den : Nat) : Int :=
  let guess : Int := (Nat.log2 num : Int) - Nat.log2 den - 53
  let low := if guess < leastExponent then leastExponent else guess
  if num * two (-low).toNat < mantissaLimit * (den * two low.toNat) then low else low + 1

def nearest (num den : Nat) : Magnitude :=
  let e := exponentOf num den
  let m := mantissaAt num den e
  let (m, e) := if m = mantissaLimit then (mantissaLimit / 2, e + 1) else (m, e)
  if greatestExponent < e then .infinite else .finite m e

/-- Decimals at least this power of ten are too large, and those below its inverse count
as zero. -/
def decimalLimit : Int := 400

def nearestDecimal (digits : Nat) (exponent : Int) : Magnitude :=
  let magnitude : Int := (Nat.repr digits).length + exponent
  if digits = 0 ∨ magnitude < -decimalLimit then .finite 0 leastExponent
  else if decimalLimit < magnitude then .infinite
  else nearest (digits * ten exponent.toNat) (ten (-exponent).toNat)

def ofDecimal (negative : Bool) (digits : Nat) (exponent : Int) : Binary64 :=
  ⟨negative, nearestDecimal digits exponent⟩

def ofInt (n : Int) : Binary64 := ofDecimal (n < 0) n.natAbs 0

def toInt? (x : Binary64) : Option Int :=
  match x.magnitude with
  | .infinite => none
  | .finite m e =>
    let scaled := m * two e.toNat
    let den := two (-e).toNat
    if scaled % den = 0 then
      some (if x.negative then -(scaled / den : Nat) else (scaled / den : Nat))
    else none

end Binary64
end TypeGraph
