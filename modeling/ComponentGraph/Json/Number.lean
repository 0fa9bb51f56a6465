/-
  ComponentGraph.Json.Number
  ────────────────────────────────
  **NUMBERS AS DOCUMENTS HOLD THEM.**

  A document's number is a binary64 value.  It is kept here as the decimal
  that names this value with the fewest digits: a sign, a digit string
  without trailing zeros, and a power of ten.  Equal values thus have equal
  representations, and zero has one sign.

      Number.ofText?  — read a literal of the JSON grammar, rounding the
                        exact decimal to the nearest binary64 value
      Number.text     — positional between 1e-6 and 1e21, scientific outside

  Rounding and the search for the fewest digits are exact arithmetic on
  natural numbers; nothing goes through machine floats.
-/

namespace ComponentGraph

/-! ## §1. The type. -/

/-- A binary64 value other than NaN: `digits · 10 ^ exponent` with a sign,
where `digits` has no trailing zero, or an infinity. -/
inductive Number where
  | finite (negative : Bool) (digits : Nat) (exponent : Int)
  | infinite (negative : Bool)
  deriving Repr, DecidableEq

namespace Number

def tens (k : Nat) : Nat := Nat.pow 10 k

def twos (k : Nat) : Nat := Nat.pow 2 k

/-- Zero, which has one representation. -/
def zero : Number := .finite false 0 0

/-- Drop trailing zeros of a digit string, at most `fuel` of them. -/
def stripZeros : Nat → Nat → Int → Nat × Int
  | 0, digits, exponent => (digits, exponent)
  | fuel + 1, digits, exponent =>
    if digits % 10 = 0 then stripZeros fuel (digits / 10) (exponent + 1)
    else (digits, exponent)

/-- The number `digits · 10 ^ exponent` in its canonical form. -/
def ofDecimal (negative : Bool) (digits : Nat) (exponent : Int) : Number :=
  if digits = 0 then zero
  else
    let (d, e) := stripZeros (Nat.log2 digits) digits exponent
    .finite negative d e

def ofNat (n : Nat) : Number := ofDecimal false n 0

/-- Only zero counts as nothing. -/
def isZero (n : Number) : Bool := n = zero

/-- The natural number that this is, if it is one. -/
def toNat? : Number → Option Nat
  | .finite false digits exponent =>
    if exponent ≥ 0 then some (digits * tens exponent.toNat) else none
  | _ => none

/-! ## §2. Rounding to binary64. -/

/-- The quotient `num / den` rounded to a whole number, a half to the even one. -/
def roundHalfEven (num den : Nat) : Nat :=
  let q := num / den
  let r := num % den
  if 2 * r < den then q
  else if 2 * r > den then q + 1
  else if q % 2 = 0 then q else q + 1

/-- `num / den` divided by `2 ^ shift`, as a quotient of natural numbers. -/
def scaleDown (num den : Nat) (shift : Int) : Nat × Nat :=
  if shift ≥ 0 then (num, den * twos shift.toNat) else (num * twos (-shift).toNat, den)

/-- The binary exponent of the last place that binary64 keeps of a positive
quotient: 53 significant bits, and never below `-1074`. -/
def lastPlace (num den : Nat) : Int :=
  -- one too high at most, since the logarithms are rounded down
  let guess : Int := (Nat.log2 num : Int) - (Nat.log2 den : Int) - 52
  let (n, d) := scaleDown num den guess
  let fitted := if n / d < twos 52 then guess - 1 else guess
  max fitted (-1074)

/-- The binary64 value nearest to a positive quotient, as `m · 2 ^ q`, or
`none` when it lies beyond the greatest one. -/
def nearestBinary (num den : Nat) : Option (Nat × Int) :=
  let q := lastPlace num den
  let (n, d) := scaleDown num den q
  let m := roundHalfEven n d
  -- rounding up may have made one more digit
  let (m, q) := if m = twos 53 then (twos 52, q + 1) else (m, q)
  if q > 971 then none else some (m, q)

/-! ## §3. The fewest digits that read back. -/

/-- `num / den ≥ 10 ^ p`. -/
def atLeastPower (num den : Nat) (p : Int) : Bool :=
  if p ≥ 0 then den * tens p.toNat ≤ num else den ≤ num * tens (-p).toNat

/-- The power of ten of the leading digit, searched downwards from `p`. -/
def leadingPower (num den : Nat) : Nat → Int → Int
  | 0, p => p
  | fuel + 1, p => if atLeastPower num den p then p else leadingPower num den fuel (p - 1)

/-- The reals that round to `m · 2 ^ q`, in units of `2 ^ (q - 2)`: the value
is `4 * m`, the ends count iff `m` is even, and below a power of two the
lower neighbour is half as far away. -/
structure Interval where
  low : Nat
  high : Nat
  closed : Bool
  deriving Repr

/-- The rounding interval of `m · 2 ^ q`. -/
def interval (m : Nat) (q : Int) : Interval where
  low := if m = twos 52 ∧ q > -1074 then 4 * m - 1 else 4 * m - 2
  high := 4 * m + 2
  closed := m % 2 = 0

/-- Is the multiple `c` of `gridNum / gridDen` inside the interval? -/
def Interval.holds (i : Interval) (gridNum gridDen c : Nat) : Bool :=
  let x := c * gridNum
  if i.closed then i.low * gridDen ≤ x && x ≤ i.high * gridDen
  else i.low * gridDen < x && x < i.high * gridDen

/-- The grid `10 ^ k` in units of `2 ^ (q - 2)`, as a quotient. -/
def grid (k q : Int) : Nat × Nat :=
  let tenNum := if k ≥ 0 then tens k.toNat else 1
  let tenDen := if k ≥ 0 then 1 else tens (-k).toNat
  let unit := q - 2
  if unit ≥ 0 then (tenNum, tenDen * twos unit.toNat) else (tenNum * twos (-unit).toNat, tenDen)

/-- The multiple of `10 ^ k` that names `m · 2 ^ q`, if one does: of the two
neighbours on the grid the nearer one, and the even one of two equally near. -/
def onGrid (m : Nat) (q k : Int) : Option Nat :=
  let i := interval m q
  let (gn, gd) := grid k q
  let below := 4 * m * gd / gn
  let above := below + 1
  match i.holds gn gd below && below ≠ 0, i.holds gn gd above with
  | true, true =>
    let down := 4 * m * gd - below * gn
    let up := above * gn - 4 * m * gd
    if down < up ∨ down = up ∧ below % 2 = 0 then some below else some above
  | true, false => some below
  | false, true => some above
  | false, false => none

/-- Try grids from the coarsest to the finest. -/
def firstOnGrid (m : Nat) (q : Int) : Nat → Int → Nat × Int
  | 0, k => (4 * m * (grid k q).2 / (grid k q).1, k)
  | fuel + 1, k =>
    match onGrid m q k with
    | some digits => (digits, k)
    | none => firstOnGrid m q fuel (k - 1)

/-- The decimal with the fewest digits that rounds to `m · 2 ^ q`. -/
def shortest (negative : Bool) (m : Nat) (q : Int) : Number :=
  if m = 0 then zero
  else
    let (num, den) := scaleDown m 1 (-q)
    let top := leadingPower num den 700 309
    let (digits, k) := firstOnGrid m q 17 top
    ofDecimal negative digits k

/-! ## §4. Reading literals. -/

/-- The value of a run of ASCII digits. -/
def digitsValue (cs : List Char) : Nat :=
  cs.foldl (fun n c => 10 * n + (c.toNat - 48)) 0

/-- The binary64 value nearest to `digits · 10 ^ exponent`. -/
def ofScientific (negative : Bool) (digits : Nat) (exponent : Int) : Number :=
  if digits = 0 then zero
  else
    let size := (Nat.toDigits 10 digits).length
    -- far outside the range nothing need be computed
    if (size : Int) + exponent > 310 then .infinite negative
    else if (size : Int) + exponent < -330 then zero
    else
      let num := if exponent ≥ 0 then digits * tens exponent.toNat else digits
      let den := if exponent ≥ 0 then 1 else tens (-exponent).toNat
      match nearestBinary num den with
      | none => .infinite negative
      | some (m, q) => shortest negative m q

/-- An exponent part: empty, or `e`, an optional sign and digits to the end. -/
def exponentOf? : List Char → Option Int
  | [] => some 0
  | e :: rest =>
    if e = 'e' ∨ e = 'E' then
      let (negative, ds) := match rest with
        | '-' :: ds => (true, ds)
        | '+' :: ds => (false, ds)
        | ds => (false, ds)
      if ds ≠ [] ∧ ds.all Char.isDigit then
        some (if negative then -(digitsValue ds : Int) else digitsValue ds)
      else none
    else none

/-- A fraction part with what follows it: empty, or a point and digits. -/
def fractionOf? : List Char → Option (List Char × List Char)
  | '.' :: rest =>
    let ds := rest.takeWhile Char.isDigit
    if ds = [] then none else some (ds, rest.dropWhile Char.isDigit)
  | rest => some ([], rest)

/-- Read a number literal of the JSON grammar: no leading zeros, no plus
sign, no bare point. -/
def ofText? (cs : List Char) : Option Number := do
  let (negative, cs) := match cs with
    | '-' :: rest => (true, rest)
    | rest => (false, rest)
  let whole := cs.takeWhile Char.isDigit
  guard (whole ≠ [] ∧ (whole.head? = some '0' → whole = ['0']))
  let (fraction, rest) ← fractionOf? (cs.dropWhile Char.isDigit)
  let exponent ← exponentOf? rest
  return ofScientific negative (digitsValue (whole ++ fraction)) (exponent - fraction.length)

/-! ## §5. Writing. -/

/-- The digits with their point: `point` places stand before it. -/
def layout (ds : List Char) (point : Int) : List Char :=
  let size : Int := ds.length
  if size ≤ point ∧ point ≤ 21 then ds ++ List.replicate (point - size).toNat '0'
  else if 0 < point ∧ point ≤ 21 then ds.take point.toNat ++ '.' :: ds.drop point.toNat
  else if -6 < point ∧ point ≤ 0 then '0' :: '.' :: (List.replicate (-point).toNat '0' ++ ds)
  else
    let power := point - 1
    let sign := if power < 0 then '-' else '+'
    let fraction := match ds.drop 1 with
      | [] => []
      | rest => '.' :: rest
    ds.take 1 ++ fraction ++ 'e' :: sign :: Nat.toDigits 10 power.natAbs

/-- Plain digits between 1e-6 and 1e21, and scientific notation outside. -/
def text : Number → String
  | .finite negative digits exponent =>
    let ds := Nat.toDigits 10 digits
    let body := if digits = 0 then ['0'] else layout ds (ds.length + exponent)
    String.ofList (if negative then '-' :: body else body)
  | .infinite negative => if negative then "-Infinity" else "Infinity"

end Number

end ComponentGraph
