/-!
# Binary floating-point numbers of 64 bits

A finite number is `± mantissa · 2 ^ exponent` with a mantissa below `2 ^ 53` and an exponent of
at least `-1074`; the mantissa has its full 53 bits unless the exponent is the least one.

* `ofDecimal` rounds a decimal to the nearest such number, a tie to the even mantissa, beyond
  the largest one to infinity.
* `shortest` finds the fewest decimal digits that are read back as the number, and among those
  with as few the nearest.

Both work with exact natural numbers.
-/

namespace TsProject

/-- A floating-point number. -/
inductive Binary64 where
  | nan
  | infinite (negative : Bool)
  | finite (negative : Bool) (mantissa : Nat) (exponent : Int)
  deriving DecidableEq, Repr

namespace Binary64

/-- A power of two. -/
def pow2 (n : Nat) : Nat := Nat.pow 2 n

/-- A power of ten. -/
def pow10 (n : Nat) : Nat := Nat.pow 10 n

/-- The least exponent. -/
def minExponent : Int := -1074

/-- The greatest exponent. -/
def maxExponent : Int := 971

/-- The zero of a sign. -/
def zero (negative : Bool) : Binary64 := .finite negative 0 minExponent

/-- The number is zero of either sign. -/
def isZero : Binary64 → Bool
  | .finite _ m _ => m == 0
  | _ => false

/-- The number is a whole number. -/
def isIntegral : Binary64 → Bool
  | .finite _ m e => m == 0 || 0 ≤ e || m % pow2 (-e).toNat == 0
  | _ => false

/-- The magnitude takes fewer than 64 bits. -/
def isSmall : Binary64 → Bool
  | .finite _ m e => e < 0 || (e ≤ 64 && m * pow2 e.toNat < pow2 63)
  | _ => false

/-- The number is exactly one. -/
def isOne (x : Binary64) : Bool := x == .finite false (pow2 52) (-52)

/-- `num / den` to the nearest whole number, a tie to the even one. -/
def roundQuotient (num den : Nat) : Nat :=
  let q := num / den
  let r := num % den
  if den < 2 * r || (2 * r == den && q % 2 == 1) then q + 1 else q

/-- The number of binary digits. -/
def bitLength (n : Nat) : Nat := if n = 0 then 0 else n.log2 + 1

/-- The mantissa and exponent nearest to `num / den`, before the check for overflow. -/
def roundFraction (num den : Nat) : Nat × Int :=
  -- one of two neighbouring exponents gives a quotient of 53 bits
  let guess : Int := (bitLength num : Int) - (bitLength den : Int) - 53
  let scaled (e : Int) : Nat × Nat :=
    if 0 ≤ e then (num, den * pow2 e.toNat) else (num * pow2 (-e).toNat, den)
  let fits (e : Int) : Bool := let (n, d) := scaled e; n / d < pow2 53
  let e := max minExponent (if fits guess then guess else guess + 1)
  let (n, d) := scaled e
  let m := roundQuotient n d
  if m = pow2 53 then (pow2 52, e + 1) else (m, e)

/-- **Reading**: the number nearest to `± digits · 10 ^ exponent`. Magnitudes that are certainly
too large or too small are settled by the number of digits alone. -/
def ofDecimal (negative : Bool) (digits : Nat) (exponent : Int) : Binary64 :=
  let magnitude : Int := exponent + ((Nat.toDigits 10 digits).length : Int)
  if digits = 0 || magnitude < -330 then zero negative
  else if 310 < magnitude then .infinite negative
  else
    let (m, e) :=
      if 0 ≤ exponent then roundFraction (digits * pow10 exponent.toNat) 1
      else roundFraction digits (pow10 (-exponent).toNat)
    if maxExponent < e then .infinite negative else .finite negative m e

/-- `2 ^ e` times `n`, over the denominator of the second part. -/
def scale (n : Nat) (e : Int) : Nat × Nat :=
  if 0 ≤ e then (n * pow2 e.toNat, 1) else (n, pow2 (-e).toNat)

/-- The decimal `digits · 10 ^ exponent`. -/
structure Decimal where
  digits : Nat
  exponent : Int
  deriving DecidableEq, Repr

/-- The decimal is read back as the finite number `m · 2 ^ e`. -/
def readsBack (m : Nat) (e : Int) (d : Decimal) : Bool :=
  ofDecimal false d.digits d.exponent == .finite false m e

/-- The two decimals with the last place `10 ^ place` that enclose `m · 2 ^ e`, the nearer one
first. -/
def neighbours (m : Nat) (e place : Int) : List Decimal :=
  let (n, d) := scale m e
  let (n, d) := if 0 ≤ place then (n, d * pow10 place.toNat) else (n * pow10 (-place).toNat, d)
  let below := n / d
  let near := roundQuotient n d
  if near = below then [⟨below, place⟩, ⟨below + 1, place⟩]
  else [⟨below + 1, place⟩, ⟨below, place⟩]

/-- The number of decimal digits before the point of `m · 2 ^ e`, where it is at least one. -/
def decimalLength (n : Nat) : Nat := (Nat.toDigits 10 n).length

/-- The decimal exponent of the leading digit of `num / den`. -/
def leadingPlace (num den : Nat) : Int :=
  if den ≤ num then (decimalLength (num / den) : Int) - 1
  else
    -- the least power of ten that lifts the quotient to one
    let guess := decimalLength den - decimalLength num
    if den ≤ num * pow10 guess then -(guess : Int) else -(guess : Int) - 1

/-- Searches for a decimal with `count` or more digits, up to seventeen. -/
def shortestFrom (m : Nat) (e lead : Int) : (tries : Nat) → (count : Nat) → Decimal
  | 0, _ => ⟨m, e⟩
  | tries + 1, count =>
    match (neighbours m e (lead + 1 - count)).find? (readsBack m e) with
    | some d => d
    | none => shortestFrom m e lead tries (count + 1)

/-- A decimal without zeros at its end. -/
def Decimal.trimZeros : (fuel : Nat) → Decimal → Decimal
  | 0, d => d
  | fuel + 1, d =>
    if d.digits % 10 == 0 && d.digits != 0 then trimZeros fuel ⟨d.digits / 10, d.exponent + 1⟩
    else d

/-- **Fewest digits**: the shortest decimal that is read back as `m · 2 ^ e`. -/
def shortest (m : Nat) (e : Int) : Decimal :=
  let (n, d) := scale m e
  (shortestFrom m e (leadingPlace n d) 18 1).trimZeros 20

/-- How a decimal is laid out: positional when the point falls neither more than `maxBefore`
digits after the first one nor more than `maxZeros` zeros before it. -/
structure Layout where
  maxBefore : Int
  maxZeros : Int
  exponentDigits : Nat

/-- `n` with zeros in front up to `width` digits. -/
def padLeft (width : Nat) (n : Nat) : String :=
  let digits := Nat.toDigits 10 n
  String.ofList (List.replicate (width - digits.length) '0' ++ digits)

/-- The text of a decimal. -/
def Layout.render (l : Layout) (d : Decimal) : String :=
  let digits := Nat.toDigits 10 d.digits
  let point : Int := d.exponent + digits.length
  if -l.maxZeros ≤ point && point ≤ l.maxBefore then
    if point ≤ 0 then
      "0." ++ String.ofList (List.replicate (-point).toNat '0' ++ digits)
    else if (digits.length : Int) ≤ point then
      String.ofList (digits ++ List.replicate (point - digits.length).toNat '0') ++ ".0"
    else
      String.ofList (digits.take point.toNat) ++ "." ++ String.ofList (digits.drop point.toNat)
  else
    let e := point - 1
    let fraction := if digits.length = 1 then [] else '.' :: digits.drop 1
    String.ofList (digits.take 1 ++ fraction) ++ "e" ++ (if e < 0 then "-" else "+") ++
      padLeft l.exponentDigits e.natAbs

/-- Numbers are written positionally up to sixteen digits before the point and three zeros after
it, and with an exponent of at least two digits otherwise. -/
def layout : Layout := ⟨16, 3, 2⟩

/-- The text of a number. -/
def text : Binary64 → String
  | .nan => "nan"
  | .infinite negative => if negative then "-inf" else "inf"
  | .finite negative m e =>
    (if negative then "-" else "") ++
      (if m = 0 then "0.0" else layout.render (shortest m e))

end Binary64

end TsProject
