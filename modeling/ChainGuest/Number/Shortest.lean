import ChainGuest.Number.Binary64

/-! # Shortest decimals

    The shortest decimal that reads back as a given binary number. The numbers that
    round to `m * 2 ^ q` form an interval around it, which holds its ends when `m` is
    even. Decimal grids are tried from coarse to fine, and the first one with a point
    in the interval fixes the number of digits. Only the two neighbours of the number
    on a grid can be its nearest points there.
-/

namespace ChainGuest

/-- The number `digits * 10 ^ exponent`. -/
structure Decimal where
  digits : Nat
  exponent : Int
  deriving DecidableEq

namespace Shortest

/-- The two factors that turn a comparison of `d * 10 ^ k` with `u * 2 ^ (q - 2)` into
    one of `d` times the first with `u` times the second. -/
def factors (q k : Int) : Nat × Nat :=
  (Nat.pow 10 k.toNat * Nat.pow 2 (2 - q).toNat,
    Nat.pow 10 (-k).toNat * Nat.pow 2 (q - 2).toNat)

/-- The end of the interval below `m * 2 ^ q`, in quarters of `2 ^ q`. Below a power of
    two the numbers stand twice as close. -/
def lowEnd (m : Nat) (q : Int) : Nat :=
  if m = Binary64.leadingBit ∧ -1074 < q then 4 * m - 1 else 4 * m - 2

/-- Whether `d * 10 ^ k` rounds to `m * 2 ^ q`. -/
def readsBack (m : Nat) (q k : Int) (d : Nat) : Bool :=
  let (a, b) := factors q k
  let low := lowEnd m q * b
  let high := (4 * m + 2) * b
  if m % 2 = 0 then low ≤ d * a && d * a ≤ high else low < d * a && d * a < high

/-- The point of the grid `10 ^ k` that is nearest to `m * 2 ^ q` among those that read
    back, if there is one; of two that are equally near, the even one. -/
def onGrid? (m : Nat) (q k : Int) : Option Nat :=
  let (a, b) := factors q k
  let below := 4 * m * b / a
  let gap := 2 * (4 * m * b % a)
  match readsBack m q k below, readsBack m q k (below + 1) with
  | true, false => some below
  | false, true => some (below + 1)
  | false, false => none
  | true, true =>
    if gap < a then some below
    else if a < gap then some (below + 1)
    else some (below + below % 2)

/-- The first grid with a point that reads back, from `k` down through `tries` grids.
    Seventeen digits always suffice. -/
def search (m : Nat) (q : Int) : (tries : Nat) → (k : Int) → Decimal
  | 0, k => ⟨(onGrid? m q k).getD 0, k⟩
  | tries + 1, k =>
    match onGrid? m q k with
    | some d => ⟨d, k⟩
    | none => search m q tries (k - 1)

/-- An exponent that is at least that of the leading digit of `m * 2 ^ q`, and at most
    one more. -/
def leadingExponent (m : Nat) (q : Int) : Int := ((m.log2 + q) * 30103).fdiv 100000 + 1

end Shortest

/-- The shortest decimal that reads back as `m * 2 ^ q`, where `m` is not zero. -/
def shortestDecimal (m : Nat) (q : Int) : Decimal :=
  Shortest.search m q 18 (Shortest.leadingExponent m q)

end ChainGuest
