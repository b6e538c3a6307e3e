/-
ScriptRegistry/Decimal/Shortest.lean

The shortest decimal text of a binary floating-point number.

A finite number is `m · 2 ^ q` for a natural `m`, and every real between the
midpoints to its neighbours reads back as it.  `shortest` looks for the coarsest
decimal grid with a point in that interval: it tries the grids `10 ^ k` from the
number's own magnitude downwards and takes the nearer of the two grid points
around the number.  All comparisons are made in exact natural arithmetic on
numbers scaled by a common denominator.

`layout` writes the digits found: positionally while the leading digit stands
between the fifth place after the point and the sixteenth before it, and with a
signed exponent elsewhere.
-/

namespace ScriptRegistry.Decimal

/-- The decimal digits of a natural number. -/
def digits (n : Nat) : List Char :=
  Nat.toDigits 10 n

/-- The parts of a finite binary number: its sign, and the naturals `m` and exponent `q` with
magnitude `m · 2 ^ q`; `narrow` tells that the neighbour below is half as far as the one above. -/
structure Binary where
  negative : Bool
  m : Nat
  q : Int
  narrow : Bool
  deriving DecidableEq, Repr

/-- The leading bit that the 64-bit format does not write, `2 ^ 52`. -/
def hidden : Nat := 4503599627370496

/-- The parts of a number in the 64-bit format. -/
def Binary.ofFloat (x : Float) : Binary :=
  let bits := x.toBits.toNat
  let exponent := bits / hidden % 2048
  let fraction := bits % hidden
  { negative := bits / hidden / 2048 == 1
    m := if exponent = 0 then fraction else fraction + hidden
    q := (max exponent 1 : Nat) - 1075
    narrow := fraction == 0 && decide (1 < exponent) }

/-- A numerator and a denominator with the value `n · 2 ^ q / 10 ^ k`. -/
def scaled (n : Nat) (q k : Int) : Nat × Nat :=
  (n * Nat.pow 2 q.toNat * Nat.pow 10 (-k).toNat, Nat.pow 2 (-q).toNat * Nat.pow 10 k.toNat)

/-- The point of the grid `10 ^ k` nearest to the magnitude among those that read back as it. -/
def Binary.onGrid? (x : Binary) (k : Int) : Option Nat :=
  let (value, den) := scaled (4 * x.m) (x.q - 2) k
  let (low, _) := scaled (4 * x.m - if x.narrow then 1 else 2) (x.q - 2) k
  let (high, _) := scaled (4 * x.m + 2) (x.q - 2) k
  let inside (d : Nat) : Bool :=
    if x.m % 2 = 0 then low ≤ d * den && d * den ≤ high else low < d * den && d * den < high
  let below := value / den
  let above := below + 1
  match below != 0 && inside below, inside above with
  | true, true =>
    let under := value - below * den
    let beyond := above * den - value
    if under < beyond || (under == beyond && below % 2 == 0) then some below else some above
  | true, false => some below
  | false, true => some above
  | false, false => none

/-- The digits and the exponent of ten found on the coarsest grid, looking at `steps` grids from
`10 ^ k` downwards. -/
def Binary.search (x : Binary) : Nat → Int → Nat × Int
  | 0, k => (0, k)
  | steps + 1, k =>
    match x.onGrid? k with
    | some d => (d, k)
    | none => x.search steps (k - 1)

/-- The fewest digits that read back as the magnitude, with their exponent of ten. -/
def Binary.shortest (x : Binary) : Nat × Int :=
  let magnitude := ((x.m.log2 : Int) + x.q) * 30103 / 100000
  x.search 20 (magnitude + 2)

/-- The exponents of the leading digit that are written positionally. -/
def isPositional (exponent : Int) : Bool :=
  -5 ≤ exponent && exponent ≤ 15

/-- The text of `d · 10 ^ k`. -/
def layout (d : Nat) (k : Int) : List Char :=
  let ds := digits d
  let exponent := (ds.length : Int) - 1 + k
  if isPositional exponent then
    if 0 ≤ k then ds ++ List.replicate k.toNat '0' ++ ['.', '0']
    else if 0 ≤ exponent then
      ds.take (exponent + 1).toNat ++ ['.'] ++ ds.drop (exponent + 1).toNat
    else ['0', '.'] ++ List.replicate (-exponent - 1).toNat '0' ++ ds
  else
    let tail := ds.drop 1
    ds.take 1 ++ (if tail.isEmpty then [] else '.' :: tail) ++ ['e'] ++
      (if exponent < 0 then ['-'] else ['+']) ++ digits exponent.natAbs

/-- The shortest text of a finite number; zero keeps its sign. -/
def render (x : Float) : String :=
  let b := Binary.ofFloat x
  let magnitude :=
    if b.m = 0 then ['0', '.', '0'] else let (d, k) := b.shortest; layout d k
  String.ofList (if b.negative then '-' :: magnitude else magnitude)

end ScriptRegistry.Decimal
