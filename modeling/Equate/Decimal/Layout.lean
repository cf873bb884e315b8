import Equate.Decimal.Shortest

/-!
# Layouts of floats

A layout turns the shortest decimal of a float into text. It writes magnitudes
within its plain range with a point among the digits and at least one digit after
it, other magnitudes with one digit before the point and an exponent of ten. The
language has two layouts: the canonical one of its values, and the one in which
messages show a float literal.
-/

namespace Equate
namespace Decimal

structure Layout where
  /-- The least magnitude that is written plainly. -/
  plainFrom : Float
  /-- The least magnitude above the plain range. -/
  plainBelow : Float
  exponentMark : Char
  /-- Whether a point and a zero follow a lone digit before the exponent. -/
  alwaysPoint : Bool
  infinity : String

/-- Canonical text is plain from one thousandth to below ten million. -/
def canonical : Layout := ⟨0.001, 10000000.0, 'E', true, "Infinity"⟩

/-- A literal in a message is plain from `1e-4` to below `1e16`. -/
def literal : Layout := ⟨0.0001, 10000000000000000.0, 'e', false, "inf"⟩

/-!
## Digits around a point
-/

def digitsOf (n : Nat) : List Char :=
  Nat.toDigits 10 n

def plain (d : Decimal) : List Char :=
  let digits := digitsOf d.digits
  let point := digits.length + d.exponent
  if point ≤ 0 then '0' :: '.' :: (List.replicate (-point).toNat '0' ++ digits)
  else if digits.length ≤ point then
    digits ++ List.replicate (point - digits.length).toNat '0' ++ ['.', '0']
  else digits.take point.toNat ++ '.' :: digits.drop point.toNat

def exponentDigits (e : Int) : List Char :=
  if e < 0 then '-' :: digitsOf e.natAbs else digitsOf e.natAbs

def scientific (mark : Char) (alwaysPoint : Bool) (d : Decimal) : List Char :=
  let digits := digitsOf d.digits
  let point := digits.length + d.exponent
  let fraction :=
    match digits.drop 1 with
    | [] => if alwaysPoint then ['.', '0'] else []
    | rest => '.' :: rest
  digits.take 1 ++ fraction ++ mark :: exponentDigits (point - 1)

/-!
## Floats
-/

def Layout.isPlain (l : Layout) (magnitude : Float) : Bool :=
  l.plainFrom ≤ magnitude && magnitude < l.plainBelow

/-- The text of the positive float `m * 2 ^ q`, whose value is `magnitude`. -/
def Layout.finite (l : Layout) (magnitude : Float) (m : Nat) (q : Int) : List Char :=
  if l.isPlain magnitude then plain (shortest m q)
  else scientific l.exponentMark l.alwaysPoint (shortest m q)

def withSign (s : Float.Model.UnpackedFloat.Sign) (text : List Char) : List Char :=
  match s with
  | .positive => text
  | .negative => '-' :: text

def Layout.chars (l : Layout) (x : Float) : List Char :=
  match x.toModel.unpack with
  | .notANumber => "NaN".toList
  | .infinity s => withSign s l.infinity.toList
  | .zero s => withSign s "0.0".toList
  | .finite s m q _ => withSign s (l.finite x.abs m q)

def Layout.text (l : Layout) (x : Float) : String :=
  String.ofList (l.chars x)

end Decimal
end Equate
