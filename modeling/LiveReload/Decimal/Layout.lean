import LiveReload.Decimal.Shortest

namespace LiveReload.Decimal

structure Layout where
  -- Numbers whose leading digit stands for a power of ten in this range are written positionally.
  lowest : Int
  highest : Int

def zeros (n : Nat) : List Char := List.replicate n '0'

-- A positional number always has a digit after the point; an exponent always has a sign.
def Layout.write (style : Layout) (decimal : Decimal) : List Char :=
  let digits := Nat.toDigits 10 decimal.digits
  let leading := decimal.exponent + digits.length - 1
  if leading < style.lowest ∨ style.highest < leading then
    let sign := if leading < 0 then '-' else '+'
    let fraction := digits.drop 1
    digits.take 1 ++ (if fraction.isEmpty then [] else '.' :: fraction) ++
      'e' :: sign :: Nat.toDigits 10 leading.natAbs
  else if leading < 0 then '0' :: '.' :: zeros (-leading - 1).toNat ++ digits
  else
    let whole := leading.toNat + 1
    let fraction := digits.drop whole
    digits.take whole ++ zeros (whole - digits.length) ++
      '.' :: (if fraction.isEmpty then ['0'] else fraction)

-- The shortest text that reads back. The sign of zero is kept.
def Layout.float (style : Layout) (x : Float) : String :=
  let bits := x.toBits
  let sign := if bits >>> 63 = 1 then ['-'] else []
  .ofList (sign ++ style.write (Binary.ofBits bits).shortest)

end LiveReload.Decimal
