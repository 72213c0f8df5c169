namespace LiveReload

-- The number `significand * 2 ^ exponent`, and the reals that round to it.
structure Binary where
  significand : Nat
  exponent : Int
  -- Below a power of two the next smaller value is only half as far away.
  narrowBelow : Bool

-- The number `digits * 10 ^ exponent`.
structure Decimal where
  digits : Nat
  exponent : Int
deriving DecidableEq

namespace Binary

-- For the 64 bits of a finite value; its sign is left out.
def ofBits (bits : UInt64) : Binary :=
  let exponent := ((bits >>> 52) &&& 0x7ff).toNat
  let fraction := (bits &&& 0xfffffffffffff).toNat
  if exponent = 0 then ⟨fraction, -1074, false⟩
  else ⟨0x10000000000000 + fraction, exponent - 1075, fraction = 0 && 1 < exponent⟩

-- The arithmetic is exact.
-- Compares `a * 10 ^ i` with `n * 2 ^ j`.
def compareScaled (a : Nat) (i : Int) (n : Nat) (j : Int) : Ordering :=
  compare ((a * Nat.pow 10 i.toNat) <<< (-j).toNat) ((n <<< j.toNat) * Nat.pow 10 (-i).toNat)

-- Whether `decimal` rounds to `value`. It does between the points halfway to the neighbours, and
-- at those points if the significand is even.
def readsBack (value : Binary) (decimal : Decimal) : Bool :=
  let quarter := value.exponent - 2
  let low := 4 * value.significand - (if value.narrowBelow then 1 else 2)
  let high := 4 * value.significand + 2
  let ends := value.significand % 2 = 0
  let aboveLow := compareScaled decimal.digits decimal.exponent low quarter
  let belowHigh := compareScaled decimal.digits decimal.exponent high quarter
  (aboveLow = .gt || (ends && aboveLow = .eq)) && (belowHigh = .lt || (ends && belowHigh = .eq))

-- The least `k` with `value < 10 ^ k`, found near the estimate from the binary logarithm.
def scale (value : Binary) : Int :=
  let estimate := (value.significand.log2 + value.exponent) * 30103 / 100000
  let candidates := [estimate, estimate + 1, estimate + 2]
  (candidates.find? fun k => compareScaled 1 k value.significand value.exponent = .gt).getD
    (estimate + 3)

def floorAt (value : Binary) (exponent : Int) : Nat :=
  ((value.significand <<< value.exponent.toNat) * Nat.pow 10 (-exponent).toNat) /
    (Nat.pow 10 exponent.toNat <<< (-value.exponent).toNat)

-- The nearer of the two neighbours of `value` on the grid of `10 ^ exponent`; the even one of two
-- equally near. Only neighbours that read back count.
def nearestAt (value : Binary) (exponent : Int) : Option Decimal :=
  let low := value.floorAt exponent
  let below : Decimal := ⟨low, exponent⟩
  let above : Decimal := ⟨low + 1, exponent⟩
  match value.readsBack below, value.readsBack above with
  | false, false => none
  | true, false => some below
  | false, true => some above
  | true, true =>
    match compareScaled (2 * low + 1) exponent (2 * value.significand) value.exponent with
    | .lt => some above
    | .gt => some below
    | .eq => some (if low % 2 = 0 then below else above)

end Binary

namespace Decimal

def stripZeros (decimal : Decimal) : Decimal :=
  if decimal.digits = 0 then decimal
  else if decimal.digits % 10 = 0 then
    stripZeros ⟨decimal.digits / 10, decimal.exponent + 1⟩
  else decimal
termination_by decimal.digits
decreasing_by exact Nat.div_lt_self (by omega) (by omega)

end Decimal

-- Tries one digit, then two, and so on; seventeen are enough.
def Binary.shortest (value : Binary) : Decimal :=
  if value.significand = 0 then ⟨0, 0⟩
  else
    let scale := value.scale
    let found := (List.range 17).findSome? fun n : Nat => value.nearestAt (scale - (n + 1 : Nat))
    (found.getD ⟨(value.significand * Nat.pow 5 (-value.exponent).toNat) <<< value.exponent.toNat,
      min value.exponent 0⟩).stripZeros

end LiveReload
