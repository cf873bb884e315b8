import Equate.Text.Blank

/-!
# Decimal numerals

A numeral is an optional sign, digits with an optional point among or around them,
and an optional exponent, with blanks allowed on both sides:

* `float := blank* sign? digits? ("." digits?)? (("e" | "E") sign? digits)? blank*`

At least one digit stands before the exponent, and digits are ASCII digits.

The float of a numeral is not the one nearest to it. Every nonzero digit is scaled
by its own power of ten and rounded, and the terms are added up from the most
significant one down.
-/

namespace Equate

/-- A numeral taken apart. Digits stand from the most significant one down. -/
structure Numeral where
  negative : Bool
  whole : List Nat
  fraction : List Nat
  exponent : Int
deriving DecidableEq, Repr

namespace Numeral

/-!
## Saturated exponents

Exponents and powers of ten live in the signed 64-bit range. A result outside of
it is replaced by the nearer end.
-/

def leastExponent : Int := -9223372036854775808

def greatestExponent : Int := 9223372036854775807

def saturate (z : Int) : Int :=
  max leastExponent (min greatestExponent z)

/-- The magnitude that digits denote, saturated digit by digit. -/
def magnitude (digits : List Nat) : Int :=
  digits.foldl (fun (acc : Int) (d : Nat) => saturate (saturate (acc * 10) + d)) 0

/-!
## Scanning
-/

def digitValue (c : Char) : Nat :=
  c.toNat - '0'.toNat

def takeDigits (cs : List Char) : List Nat × List Char :=
  ((cs.takeWhile Char.isDigit).map digitValue, cs.dropWhile Char.isDigit)

def takeSign : List Char -> Bool × List Char
  | '+' :: cs => (false, cs)
  | '-' :: cs => (true, cs)
  | cs => (false, cs)

def takeFraction : List Char -> List Nat × List Char
  | '.' :: cs => takeDigits cs
  | cs => ([], cs)

def takeExponentValue (cs : List Char) : Option (Int × List Char) :=
  let (negative, cs) := takeSign cs
  match takeDigits cs with
  | ([], _) => none
  | (digits, cs) => some (if negative then -magnitude digits else magnitude digits, cs)

/-- Split off an optional exponent; a mark without digits after it is refused. -/
def takeExponent : List Char -> Option (Int × List Char)
  | 'E' :: cs => takeExponentValue cs
  | 'e' :: cs => takeExponentValue cs
  | cs => some (0, cs)

/-- Read a numeral that takes up the whole text, blanks at the ends apart. -/
def scan (cs : List Char) : Option Numeral :=
  let (negative, cs) := takeSign (cs.dropWhile Text.isBlank)
  let (whole, cs) := takeDigits cs
  let (fraction, cs) := takeFraction cs
  if whole.isEmpty && fraction.isEmpty then none
  else
    match takeExponent cs with
    | none => none
    | some (exponent, cs) =>
        if (cs.dropWhile Text.isBlank).isEmpty then
          some ⟨negative, whole, fraction, exponent⟩
        else none

/-!
## Accumulation
-/

def timesTen : Nat -> Float -> Float
  | 0, x => x
  | n + 1, x =>
      let y := x * 10.0
      if y.isInf then y else timesTen n y

def powerOfTen (n : Nat) : Float :=
  timesTen n 1.0

/--
The term of one digit at one power of ten. A zero contributes nothing, also where
the power is infinite, and negative powers divide.
-/
def term (digit : Nat) (power : Int) : Float :=
  if digit = 0 then 0.0
  else if 0 ≤ power then digit.toUInt64.toFloat * powerOfTen power.toNat
  else digit.toUInt64.toFloat / powerOfTen (-power).toNat

def places (n : Numeral) : List (Nat × Int) :=
  let wholePlace := fun (digit, position) =>
    (digit, saturate (((n.whole.length : Int) - 1 - (position : Nat)) + n.exponent))
  let fractionPlace := fun (digit, position) =>
    (digit, saturate (n.exponent - (position : Nat)))
  n.whole.zipIdx.map wholePlace ++ (n.fraction.zipIdx 1).map fractionPlace

def sum (n : Numeral) : Float :=
  n.places.foldl (fun x place => x + term place.1 place.2) 0.0

def toFloat (n : Numeral) : Float :=
  if n.negative then -n.sum else n.sum

def float? (s : String) : Option Float :=
  (scan s.toList).map toFloat

end Numeral
end Equate
