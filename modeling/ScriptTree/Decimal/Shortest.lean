/-!
The shortest decimal that reads back as a given binary number.

A finite binary number is `m * 2 ^ q`. The decimals that round to it fill an interval around it, which
reaches half way to both neighbours and holds its ends exactly if `m` is even. Of these decimals the
shortest is a multiple of the highest possible power of ten, and the nearest such multiple.
-/

namespace ScriptTree.Decimal

/-- A fraction of natural numbers; the denominator is not zero. -/
structure Ratio where
  num : Nat
  den : Nat

namespace Ratio

/-- The number `n * 10 ^ k`. -/
def ofScaled (n : Nat) (k : Int) : Ratio :=
  match k with
  | .ofNat k => ⟨n * Nat.pow 10 k, 1⟩
  | .negSucc k => ⟨n, Nat.pow 10 (k + 1)⟩

/-- The number `n * 2 ^ q`. -/
def ofBinary (n : Nat) (q : Int) : Ratio :=
  match q with
  | .ofNat q => ⟨n * Nat.pow 2 q, 1⟩
  | .negSucc q => ⟨n, Nat.pow 2 (q + 1)⟩

def le (a b : Ratio) : Bool :=
  a.num * b.den ≤ b.num * a.den

def lt (a b : Ratio) : Bool :=
  a.num * b.den < b.num * a.den

/-- The whole part of a quotient. -/
def quotient (a b : Ratio) : Nat :=
  (a.num * b.den) / (a.den * b.num)

end Ratio

/-- A positive number in binary, with the number of its format that comes right before it: the gap
below the least number of a binade is half as wide as the gap above. -/
structure Binary where
  mantissa : Nat
  exponent : Int
  isLeastOfBinade : Bool

namespace Binary

/-- The value in quarters of the gap above it. -/
def quarters (n : Nat) (b : Binary) : Ratio :=
  .ofBinary n (b.exponent - 2)

def value (b : Binary) : Ratio :=
  b.quarters (4 * b.mantissa)

/-- Does a number round to this one? -/
def isNearest (b : Binary) (x : Ratio) : Bool :=
  let low := b.quarters (4 * b.mantissa - if b.isLeastOfBinade then 1 else 2)
  let high := b.quarters (4 * b.mantissa + 2)
  if b.mantissa % 2 == 0 then low.le x && x.le high else low.lt x && x.lt high

/-- The multiple of `10 ^ k` that is nearest to the value, among those that round to it. Half way
between two of them the upper one is taken. -/
def multiple? (b : Binary) (k : Int) : Option Nat :=
  let below := b.value.quotient (.ofScaled 1 k)
  match b.isNearest (.ofScaled below k), b.isNearest (.ofScaled (below + 1) k) with
  | true, true =>
    if b.value.lt ⟨(Ratio.ofScaled (2 * below + 1) k).num, 2 * (Ratio.ofScaled 1 k).den⟩
    then some below else some (below + 1)
  | true, false => some below
  | false, true => some (below + 1)
  | false, false => none

end Binary

/-- Digits and a power of ten. -/
structure Scaled where
  digits : Nat
  exponent : Int

/-- The shortest decimal that rounds to the number. No number of the format reaches `10 ^ 309`, and each
is a multiple of `10 ^ (-1074)`. -/
def shortest (b : Binary) : Scaled :=
  ((List.range 1384).findSome? fun (i : Nat) =>
    (b.multiple? (309 - (i : Int))).map (⟨·, 309 - (i : Int)⟩)).getD ⟨0, 0⟩

namespace Scaled

/-- The number without an exponent: zeros where the digits do not reach, and a point only in front of a
fraction. -/
def positional (s : Scaled) : String :=
  let digits := toString s.digits
  match s.exponent with
  | .ofNat k => digits ++ String.ofList (List.replicate k '0')
  | .negSucc k =>
    let padded := List.replicate (k + 2 - digits.length) '0' ++ digits.toList
    let whole := padded.length - (k + 1)
    String.ofList (padded.take whole ++ '.' :: padded.drop whole)

end Scaled

/-- The text of a number in double precision: the shortest positional decimal. The sign of zero is
kept. -/
def render (x : Float) : String :=
  let bits := x.toBits.toNat
  let hidden := Nat.pow 2 52
  let sign := if bits / Nat.pow 2 63 == 1 then "-" else ""
  let exponent : Nat := bits / hidden % 2048
  let fraction : Nat := bits % hidden
  if exponent == 2047 then
    if fraction == 0 then sign ++ "inf" else "NaN"
  else if exponent == 0 then
    if fraction == 0 then sign ++ "0"
    else sign ++ (shortest ⟨fraction, -1074, false⟩).positional
  else
    let b : Binary := ⟨hidden + fraction, Int.ofNat exponent - 1075, fraction == 0 && 1 < exponent⟩
    sign ++ (shortest b).positional

end ScriptTree.Decimal
