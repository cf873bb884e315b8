/-!
# Words and binary64 floats

A machine number of the language is a 64-bit word, read unsigned or signed, or a
binary64 float. The reinterpretation of a word under the other sign keeps its
bits and is `UInt64.toInt64` and `Int64.toUInt64` of the core library. This module
adds the conversions between words and floats, the comparison of floats with its
unordered outcome, and the remainder of a float division. All of them are stated
on the core library's model of floats, so that they compute in proofs as well.
-/

namespace Equate
namespace Binary64

open Float.Model

/-!
## Words to floats
-/

def signBit : UInt64 := 0x8000000000000000

/--
The float of an unsigned word. A word with its top bit set is halved first, which
drops its lowest bit, then converted, then doubled.
-/
def ofUnsigned (u : UInt64) : Float :=
  if u < signBit then u.toFloat else (u >>> 1).toFloat * 2.0

def ofSigned (i : Int64) : Float :=
  if i < 0 then -(0 - i.toUInt64).toFloat else i.toUInt64.toFloat

/-!
## Floats to words
-/

/-- Truncation toward zero, clamped to the signed range. NaN becomes zero. -/
def toSigned (x : Float) : Int64 :=
  x.toModel.toInt64

/-- Truncation toward zero read as an unsigned word, so that `-1.0` gives all ones. -/
def toUnsigned (x : Float) : UInt64 :=
  (toSigned x).toUInt64

/-!
## Comparison

Both zeros are equal, and NaN is unordered with every float.
-/

def compare? (x y : Float) : Option Ordering :=
  x.toModel.compare y.toModel

/-- Equality of floats in which NaN equals itself. -/
def same (x y : Float) : Bool :=
  (x.isNaN && y.isNaN) || x == y

/-!
## Remainder

The remainder of a truncated division is exact. It has the sign of the dividend,
also when it is zero. A finite dividend is left alone by an infinite divisor.
-/

def remainderUnpacked : UnpackedFloat -> UnpackedFloat -> UnpackedFloat
  | .finite s m e _, .finite _ n f _ =>
      let least := min e f
      let dividend := m <<< (e - least).toNat
      let divisor := n <<< (f - least).toNat
      .normalize Format.binary64 (s.apply (dividend % divisor)) least s
  | .zero s, .finite .. => .zero s
  | .finite s m e h, .infinity _ => .finite s m e h
  | .zero s, .infinity _ => .zero s
  | _, _ => .notANumber

def remainder (x y : Float) : Float :=
  .ofModel (.pack (remainderUnpacked x.toModel.unpack y.toModel.unpack))

end Binary64
end Equate
