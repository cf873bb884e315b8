import Equate.Binary64

/-!
# Numbers

The numbers of the language are binary64 floats and 64-bit words. Signed and
unsigned words are different numbers even where they stand for the same integer:
the kind decides how division, comparison, shifting and printing read the bits.
-/

namespace Equate

inductive Number where
  | float (x : Float)
  | signed (i : Int64)
  | unsigned (u : UInt64)
deriving DecidableEq

namespace Number

/-!
## Readings

Every number has a reading as an unsigned word, as a signed word and as a float.
Words keep their bits under the other sign, and floats truncate toward zero.
-/

def toUnsigned : Number -> UInt64
  | .float x => Binary64.toUnsigned x
  | .signed i => i.toUInt64
  | .unsigned u => u

def toSigned : Number -> Int64
  | .float x => Binary64.toSigned x
  | .signed i => i
  | .unsigned u => u.toInt64

def toFloat : Number -> Float
  | .float x => x
  | .signed i => Binary64.ofSigned i
  | .unsigned u => Binary64.ofUnsigned u

def ofBool (b : Bool) : Number :=
  .unsigned (if b then 1 else 0)

/-!
## Tests
-/

/-- A number is true unless it is zero; NaN is true. -/
def isTrue : Number -> Bool
  | .float x => !(x == 0.0)
  | .signed i => i != 0
  | .unsigned u => u != 0

/-- Same kind and same number, NaN equal to itself. -/
def identical : Number -> Number -> Bool
  | .float x, .float y => Binary64.same x y
  | .signed i, .signed j => i == j
  | .unsigned u, .unsigned v => u == v
  | _, _ => false

/-- Same kind and same number in the sense of IEEE equality, NaN unequal to itself. -/
def equal : Number -> Number -> Bool
  | .float x, .float y => x == y
  | .signed i, .signed j => i == j
  | .unsigned u, .unsigned v => u == v
  | _, _ => false

/-!
## Comparison

Words compare by the integers they stand for, whatever their signs. A float on
either side makes it a comparison of floats.
-/

def compareMixed (i : Int64) (u : UInt64) : Ordering :=
  if i < 0 then .lt else compare i.toUInt64 u

def compare? : Number -> Number -> Option Ordering
  | .unsigned u, .unsigned v => some (compare u v)
  | .signed i, .signed j => some (compare i j)
  | .signed i, .unsigned u => some (compareMixed i u)
  | .unsigned u, .signed i => some (compareMixed i u).swap
  | a, b => Binary64.compare? a.toFloat b.toFloat

end Number
end Equate
