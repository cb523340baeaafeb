import DialogScript.Text

/-!
Decimal text of binary64 numbers: the fewest digits that read back, nearest to the number among
those, a tie going to the even digit.
-/

namespace DialogScript

/-- The magnitude `4 * significand * 2 ^ power` in units of `Binary.unit`. -/
structure Binary where
  significand : Nat
  power : Nat
  /-- Whether the next smaller number is half as far away as the next larger one. -/
  crowded : Bool
deriving DecidableEq, Repr

/-- The number `digits * 10 ^ exponent`. -/
structure Decimal where
  digits : Nat
  exponent : Int
deriving DecidableEq, Repr

namespace Binary

/-- The number of units in one. -/
def unit : Nat := Nat.pow 2 1076

/-- The magnitude of a finite binary64 pattern. -/
def ofBits (bits : UInt64) : Binary :=
  let exponent := (bits.toNat / Nat.pow 2 52) % Nat.pow 2 11
  let fraction := bits.toNat % Nat.pow 2 52
  if exponent = 0 then ⟨fraction, 0, false⟩
  else ⟨Nat.pow 2 52 + fraction, exponent - 1, fraction = 0 && 1 < exponent⟩

def units (b : Binary) : Nat := 4 * b.significand * Nat.pow 2 b.power

/-- The ends of the interval of reals that round to the number. -/
def lower (b : Binary) : Nat := b.units - (if b.crowded then 1 else 2) * Nat.pow 2 b.power

def upper (b : Binary) : Nat := b.units + 2 * Nat.pow 2 b.power

/-- Whether `x / scale` units round to the number; the ends do when the significand is even. -/
def accepts (b : Binary) (x scale : Nat) : Bool :=
  if b.significand % 2 = 0 then b.lower * scale ≤ x && x ≤ b.upper * scale
  else b.lower * scale < x && x < b.upper * scale

/-- The least `k` with the number below `10 ^ k`, for a number that is not zero. -/
def magnitude (b : Binary) : Int :=
  if unit ≤ b.units then (Nat.toDigits 10 (b.units / unit)).length
  else 1 - (((List.range 400).find? fun j => unit ≤ b.units * Nat.pow 10 j).getD 0 : Nat)

/-- The nearest multiple of `10 ^ exponent` that reads back, if one does. -/
def onGrid? (b : Binary) (exponent : Int) : Option Decimal :=
  let step := unit * Nat.pow 10 exponent.toNat
  let scale := Nat.pow 10 (-exponent).toNat
  let below := b.units * scale / step
  let nearer :=
    if 2 * b.units * scale < (2 * below + 1) * step then below
    else if (2 * below + 1) * step < 2 * b.units * scale then below + 1
    else if below % 2 = 0 then below else below + 1
  ([nearer, below, below + 1].find? fun d => b.accepts (d * step) scale).map (⟨·, exponent⟩)

end Binary

namespace Decimal

/-- The nearest decimal to a number that is not zero, among those with the fewest digits. -/
def shortest (b : Binary) : Decimal :=
  ((List.range 17).findSome? fun n : Nat => b.onGrid? (b.magnitude - (n + 1))).getD ⟨0, 0⟩

def zeros (count : Nat) : Text := List.replicate count '0'

/-- Positional text from `1e-5` up to `1e16`, always with a point; a power of ten outside. -/
def print (d : Decimal) : Text :=
  let all := Nat.toDigits 10 d.digits
  let digits := (all.reverse.dropWhile (· = '0')).reverse
  let point : Int := all.length + d.exponent
  if 0 < point && point ≤ 16 then
    let whole := digits.take point.toNat
    let part := digits.drop point.toNat
    whole ++ zeros (point.toNat - digits.length) ++ '.' :: (if part.isEmpty then ['0'] else part)
  else if -5 < point && point ≤ 0 then
    "0.".toList ++ zeros (-point).toNat ++ digits
  else
    let part := digits.drop 1
    digits.take 1 ++ (if part.isEmpty then [] else '.' :: part) ++
      'e' :: (if point ≤ 0 then '-' else '+') :: Nat.toDigits 10 (point - 1).natAbs

/-- The text of a finite binary64 pattern. -/
def printBits (bits : UInt64) : Text :=
  let b := Binary.ofBits bits
  (if bits.toNat < Nat.pow 2 63 then [] else ['-']) ++
    if b.significand = 0 then "0.0".toList else (shortest b).print

end Decimal

end DialogScript
