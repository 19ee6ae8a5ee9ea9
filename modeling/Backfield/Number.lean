/-!
# Numbers

The numbers of a document as they are kept.  A whole number is kept as it is, and any other as the
binary floating-point number of double precision next to it.  The spelling of such a number is the
shortest that is read as the same number again.
-/

namespace Backfield

/-- A binary floating-point number of double precision. -/
inductive Double
  /-- `mantissa * 2 ^ exponent`, or this below zero. -/
  | finite (isNegative : Bool) (mantissa : Nat) (exponent : Int)
  | infinite (isNegative : Bool)
  | nan
  deriving DecidableEq, Repr

namespace Double

/-! ## Rounding -/

/-- The whole number next to a quotient, or the even one of two. -/
def roundQuotient (a b : Nat) : Nat :=
  let rest := 2 * (a % b)
  if b < rest || (rest == b && a / b % 2 == 1) then a / b + 1 else a / b

/-- The quotient `a / b * base ^ exponent` as numerator and denominator. -/
def scale (base : Nat) (exponent : Int) (a b : Nat) : Nat × Nat :=
  if exponent < 0 then (a, b * base.pow exponent.natAbs) else (a * base.pow exponent.toNat, b)

/-- The number of binary digits of a mantissa. -/
def precision : Nat := 53

/-- Mantissas are smaller than this. -/
def mantissaLimit : Nat := Nat.pow 2 precision

/-- The exponent of the smallest numbers. -/
def minExponent : Int := -1074

/-- The exponent with which the mantissa of `a / b` has all its digits, or the smallest one. -/
def exponentOf (a b : Nat) : Int :=
  let low := (a.log2 : Int) - b.log2 - precision
  let (c, d) := scale 2 (-low) a b
  max minExponent (if d * mantissaLimit ≤ c then low + 1 else low)

def zero (isNegative : Bool) : Double := .finite isNegative 0 minExponent

/-- The number next to `a / b`. -/
def ofQuotient (isNegative : Bool) (a b : Nat) : Double :=
  if a == 0 then zero isNegative
  else
    let exponent := exponentOf a b
    let (c, d) := scale 2 (-exponent) a b
    let mantissa := roundQuotient c d
    let (mantissa, exponent) :=
      if mantissa == mantissaLimit then (mantissa / 2, exponent + 1) else (mantissa, exponent)
    if 1024 ≤ mantissa.log2 + exponent then .infinite isNegative
    else .finite isNegative mantissa exponent

/-- The number of decimal digits. -/
def decimals (n : Nat) : Nat := (toString n).length

/-- The number next to `digits * 10 ^ exponent`.  No power of ten is taken that makes the number
larger or smaller than all others anyway. -/
def ofDecimal (isNegative : Bool) (digits : Nat) (exponent : Int) : Double :=
  let point := decimals digits + exponent
  if digits == 0 || point < -400 then zero isNegative
  else if 400 < point then .infinite isNegative
  else
    let (a, b) := scale 10 exponent digits 1
    ofQuotient isNegative a b

/-! ## Spelling -/

/-- The place of the decimal point before the digits of `a / b`. -/
def pointOf (a b : Nat) : Int :=
  let low := (decimals a : Int) - decimals b
  let (c, d) := scale 10 (-low) a b
  if d ≤ c then low + 1 else low

/-- So many digits of `a / b` that is read as the number they are of, if there are any. -/
def digitsOf? (mantissa : Nat) (exponent : Int) (a b : Nat) (point : Int) (count : Nat) :
    Option Nat :=
  let (c, d) := scale 10 (count - point) a b
  let near := roundQuotient c d
  let far := if near == c / d then near + 1 else near - 1
  [near, far].find? fun digits =>
    ofDecimal false digits (point - count) == .finite false mantissa exponent

/-- The fewest digits that tell a number from others, without zeros at their end, and the place of
the decimal point before them. -/
def shortest (mantissa : Nat) (exponent : Int) : List Char × Int :=
  let (a, b) := scale 2 exponent mantissa 1
  let point := pointOf a b
  let found := (List.range 17).findSome? fun n =>
    (digitsOf? mantissa exponent a b point (n + 1)).map fun digits => (digits, n + 1)
  let (digits, count) := found.getD (0, 1)
  let spelled := (toString digits).toList
  ((spelled.reverse.dropWhile (· == '0')).reverse, point + (spelled.length - count))

/-- A positive number with these digits, in full or with a power of ten. -/
def spell (digits : List Char) (point : Int) : String :=
  if point ≤ -4 || 16 < point then
    let rest := if digits.length ≤ 1 then [] else '.' :: digits.drop 1
    let power := (point - 1).natAbs
    String.ofList (digits.take 1 ++ rest) ++ (if point ≤ 0 then "e-" else "e+") ++
      (if power < 10 then "0" else "") ++ toString power
  else if point ≤ 0 then "0." ++ String.ofList (List.replicate point.natAbs '0' ++ digits)
  else
    let whole := point.toNat
    let fraction := digits.drop whole
    String.ofList (digits.take whole ++ List.replicate (whole - digits.length) '0') ++ "." ++
      if fraction.isEmpty then "0" else String.ofList fraction

def sign (isNegative : Bool) : String := if isNegative then "-" else ""

/-- A number counts as false if it is zero, below zero or not. -/
def isTrue : Double → Bool
  | finite _ mantissa _ => mantissa != 0
  | _ => true

def text : Double → String
  | finite isNegative mantissa exponent =>
    sign isNegative ++
      if mantissa == 0 then "0.0"
      else
        let (digits, point) := shortest mantissa exponent
        spell digits point
  | infinite isNegative => sign isNegative ++ "inf"
  | nan => "nan"

end Double

/-- A number of a document: it has a fraction or an exponent, or it is whole. -/
inductive Number
  | whole (n : Int)
  | double (d : Double)
  deriving DecidableEq, Repr

namespace Number

instance (n : Nat) : OfNat Number n := ⟨whole n⟩

instance : Coe Nat Number := ⟨fun n => whole n⟩

def isTrue : Number → Bool
  | whole n => n != 0
  | double d => d.isTrue

def text : Number → String
  | whole n => toString n
  | double d => d.text

instance : ToString Number := ⟨text⟩

/-- The whole number from zero on, or zero for any other. -/
def toNat : Number → Nat
  | whole n => n.toNat
  | double _ => 0

end Number

end Backfield

