import DialogScript.Json

/-!
From a written number to its value. At most 64 bits of digits count; the rest move the decimal point
only, and the point is moved by one rounded multiplication or division.
-/

namespace DialogScript.Json

/-- A number as it is written, its digits below ten. `fraction` is empty when there is no point. -/
structure Numeral where
  negative : Bool := false
  whole : List Nat
  fraction : List Nat := []
  exponent? : Option (Bool × List Nat) := none
deriving DecidableEq, Repr

/-- Appends decimal digits to a number while it fits below `bound`; gives the digits left over. -/
def appendDigits (bound acc : Nat) : List Nat → Nat × List Nat
  | [] => (acc, [])
  | d :: ds => if acc * 10 + d < bound then appendDigits bound (acc * 10 + d) ds else (acc, d :: ds)

def clamp (bound : Int) (n : Int) : Int := max (-bound - 1) (min bound n)

/-- A binary64 pattern with a sign put on it. -/
def signed (negative : Bool) (x : Float) : Number := .float (if negative then -x else x).toBits

def powerOfTen (exponent : Nat) : Float := Float.ofScientific 1 false exponent

/-- `significand * 10 ^ exponent`, if it is finite. -/
def scale? (significand : Nat) (exponent : Int) : Option Float :=
  let x := Float.ofNat significand
  let n := exponent.natAbs
  if 0 ≤ exponent then
    if n ≤ 308 then
      let y := x * powerOfTen n
      if y.isInf then none else some y
    else if significand = 0 then some x else none
  else if n ≤ 308 then some (x / powerOfTen n)
  else if n ≤ 616 then some (x / powerOfTen 308 / powerOfTen (n - 308))
  else some 0.0

namespace Numeral

/-- A number without point and exponent; negative zero and what 64 bits do not hold are floats. -/
def whole64 (negative : Bool) (n : Nat) : Number :=
  if !negative then .int n
  else if n = 0 || Nat.pow 2 63 < n then signed true (Float.ofNat n)
  else .int (-n)

/-- The value, or how many exponent digits are unread when the number is out of range. -/
def value (n : Numeral) : Except Nat Number :=
  let (head, wholeLeft) := appendDigits (Nat.pow 2 64) 0 n.whole
  let (significand, fractionLeft) := appendDigits (Nat.pow 2 64) head n.fraction
  let point : Int := wholeLeft.length - (n.fraction.length - fractionLeft.length : Nat)
  let finish (exponent : Int) : Except Nat Number :=
    match scale? significand exponent with
    | some x => .ok (signed n.negative x)
    | none => .error 0
  match n.exponent? with
  | none =>
    if wholeLeft.isEmpty && n.fraction.isEmpty then .ok (whole64 n.negative significand)
    else finish point
  | some (down, digits) =>
    match appendDigits (Nat.pow 2 31) 0 digits with
    | (e, []) => finish (clamp (Nat.pow 2 31 - 1) (if down then point - e else point + e))
    | (_, _ :: left) =>
      if significand ≠ 0 && !down then .error left.length else .ok (signed n.negative 0.0)

end Numeral

end DialogScript.Json
