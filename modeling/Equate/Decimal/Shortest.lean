/-!
# Shortest decimals

A finite binary64 float stands for every real number that rounds to it. This
module finds the decimal with the fewest digits among them, and of several such
decimals the one nearest to the float. All of it is exact arithmetic on natural
numbers: the float is `m * 2 ^ q`, a decimal is `digits * 10 ^ exponent`.
-/

namespace Equate

structure Decimal where
  digits : Nat
  exponent : Int
deriving DecidableEq, Repr

namespace Decimal

/-!
## The rounding interval

The reals that round to `m * 2 ^ q` reach half a step to either side. Below a power
of two the steps are half as wide, except at the least exponent. In units of
`2 ^ (q - 2)` the ends and the float itself are natural numbers. The ends belong
to the interval iff `m` is even.
-/

structure Interval where
  low : Nat
  middle : Nat
  high : Nat
  exponent : Int
  closed : Bool
deriving DecidableEq, Repr

/-- The interval of the float `m * 2 ^ q` with `m` below `2 ^ 53`. -/
def Interval.ofFloat (m : Nat) (q : Int) : Interval where
  low := if m = Nat.pow 2 52 ∧ q ≠ -1074 then 4 * m - 1 else 4 * m - 2
  middle := 4 * m
  high := 4 * m + 2
  exponent := q - 2
  closed := m % 2 = 0

/-!
## Grid points

On the grid of the multiples of `10 ^ k` only the two neighbours of the float need
a look: if any point of the grid lies in the interval, so does one of them.
-/

def unitPerStep (exponent k : Int) : Nat × Nat :=
  (Nat.pow 2 exponent.toNat * Nat.pow 10 (-k).toNat,
    Nat.pow 2 (-exponent).toNat * Nat.pow 10 k.toNat)

/-- The grid point in the interval that is nearest to the float, a tie going up. -/
def Interval.gridPoint? (i : Interval) (k : Int) : Option Nat :=
  let (num, den) := unitPerStep i.exponent k
  let below := i.middle * num / den
  let rest := i.middle * num % den
  let admits (bound point : Nat) : Bool :=
    if i.closed then bound ≤ point else bound < point
  let hitsBelow := admits (i.low * num) (below * den)
  let hitsAbove := admits ((below + 1) * den) (i.high * num)
  if hitsBelow && (2 * rest < den || !hitsAbove) then some below
  else if hitsAbove then some (below + 1)
  else none

/-!
## The search

The grids are tried from a coarse one down, so that the first hit has the fewest
digits. Seventeen digits always suffice. The exact value stands at the end of the
search, where it is not reached.
-/

def exact (m : Nat) (q : Int) : Decimal :=
  if 0 ≤ q then ⟨m * Nat.pow 2 q.toNat, 0⟩ else ⟨m * Nat.pow 5 (-q).toNat, q⟩

def Interval.firstPoint? (i : Interval) : Nat -> Int -> Option Decimal
  | 0, _ => none
  | tries + 1, k =>
      match i.gridPoint? k with
      | some digits => some ⟨digits, k⟩
      | none => i.firstPoint? tries (k - 1)

/-- An exponent of ten above every grid with a point near `m * 2 ^ q`. -/
def coarsestExponent (m : Nat) (q : Int) : Int :=
  (m.log2 + 1 + q) * 30103 / 100000 + 2

/-- The shortest decimal that rounds to `m * 2 ^ q`. -/
def shortest (m : Nat) (q : Int) : Decimal :=
  ((Interval.ofFloat m q).firstPoint? 24 (coarsestExponent m q)).getD (exact m q)

end Decimal
end Equate
