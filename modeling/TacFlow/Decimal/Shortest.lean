/-!
# Shortest decimals

The shortest decimal number that reads back as a given binary floating point number, and the text
that shows it. All comparisons are exact: a decimal `d · 10 ^ x` and a binary fraction `m · 2 ^ e`
are brought to integers by cross multiplication.
-/

namespace TacFlow.Decimal

/-- The binary fraction `mantissa · 2 ^ exponent`. -/
structure Binary where
  mantissa : Nat
  exponent : Int

/-- The decimal number `digits · 10 ^ exponent`. -/
structure Scientific where
  digits : Nat
  exponent : Int

/-- A power with a negative exponent counted as zero. -/
def power (base : Nat) (e : Int) : Nat :=
  base.pow e.toNat

/-- `d ≤ b` as numbers. -/
def Scientific.le (d : Scientific) (b : Binary) : Bool :=
  d.digits * power 10 d.exponent * power 2 (-b.exponent) ≤
    b.mantissa * power 2 b.exponent * power 10 (-d.exponent)

/-- `b ≤ d` as numbers. -/
def Scientific.ge (d : Scientific) (b : Binary) : Bool :=
  b.mantissa * power 2 b.exponent * power 10 (-d.exponent) ≤
    d.digits * power 10 d.exponent * power 2 (-b.exponent)

/-- How often `10 ^ x` fits into a binary fraction. -/
def Binary.floorAt (b : Binary) (x : Int) : Nat :=
  b.mantissa * power 2 b.exponent * power 10 (-x) / (power 10 x * power 2 (-b.exponent))

/-- The largest `x` with `10 ^ x ≤ b`, for a positive double. -/
def Binary.magnitude (b : Binary) : Int :=
  (((List.range 640).map fun (k : Nat) => (310 - k : Int)).find? (b.floorAt · ≠ 0)).getD 0

/-- The numbers that read back as a binary number: an interval around it that reaches half way to
its neighbours, with or without its ends. -/
structure Rounding where
  value : Binary
  low : Binary
  high : Binary
  closed : Bool

/-- The leading bit of a double's mantissa, `2 ^ 52`. A normal number does not store it. -/
def hiddenBit : Nat :=
  4503599627370496

/-- The interval of a double's mantissa and exponent. Below a power of two the neighbour is only
half as far away, except at the smallest exponent. -/
def Rounding.ofDouble (m : Nat) (e : Int) : Rounding where
  value := ⟨m, e⟩
  low := if m = hiddenBit ∧ -1074 < e then ⟨4 * m - 1, e - 2⟩ else ⟨2 * m - 1, e - 1⟩
  high := ⟨2 * m + 1, e - 1⟩
  closed := m % 2 = 0

/-- Whether a decimal reads back as the value of the interval. -/
def Rounding.contains (r : Rounding) (d : Scientific) : Bool :=
  if r.closed then d.ge r.low && d.le r.high else !d.le r.low && !d.ge r.high

/-- Of the two decimals on the grid `10 ^ x` next to the value, the nearer one that reads back. -/
def Rounding.onGrid (r : Rounding) (x : Int) : Option Scientific :=
  let q := r.value.floorAt x
  let down : Scientific := ⟨q, x⟩
  let up : Scientific := ⟨q + 1, x⟩
  let middle : Scientific := ⟨10 * q + 5, x - 1⟩
  let upIsNearer := if middle.ge r.value then middle.le r.value && q % 2 = 1 else true
  match r.contains down, r.contains up with
  | true, true => some (if upIsNearer then up else down)
  | true, false => some down
  | false, true => some up
  | false, false => none

/-- The decimal with the fewest digits that reads back; seventeen digits always do. -/
def Rounding.shortest (r : Rounding) : Scientific :=
  let top := r.value.magnitude
  ((List.range 17).findSome? fun (k : Nat) => r.onGrid (top - k)).getD
    ⟨r.value.floorAt (top - 16), top - 16⟩

/-- Cuts zeros off the end of a list of digits that stands most significant first. -/
def trimZeros (ds : List Char) : List Char :=
  (ds.reverse.dropWhile (· == '0')).reverse

/-- The text of a positive decimal: positional from `10 ^ -4` up to `10 ^ 16`, with an exponent of
at least two digits elsewhere. A positional whole number ends in `.0`. -/
def Scientific.text (d : Scientific) : String :=
  let all := (toString d.digits).toList
  let point : Int := all.length + d.exponent
  let ds := trimZeros all
  let zeros (n : Int) : List Char := List.replicate n.toNat '0'
  if -4 < point && point ≤ 16 then
    if point ≤ 0 then
      String.ofList ('0' :: '.' :: zeros (-point) ++ ds)
    else
      let whole := (ds ++ zeros (point - ds.length)).take point.toNat
      let rest := ds.drop point.toNat
      String.ofList (whole ++ '.' :: (if rest = [] then ['0'] else rest))
  else
    let exponent := (toString (point - 1).natAbs).toList
    let padded := List.replicate (2 - exponent.length) '0' ++ exponent
    let sign := if point - 1 < 0 then '-' else '+'
    let fraction := if ds.length ≤ 1 then [] else '.' :: ds.drop 1
    String.ofList (ds.take 1 ++ fraction ++ 'e' :: sign :: padded)

/-- The text of a floating point number: the shortest decimal that reads back, or one of the words
for the numbers that have none. -/
def floatText (x : Float) : String :=
  let bits := x.toBits.toNat
  let sign := if bits / 9223372036854775808 = 1 then "-" else ""
  let biased : Nat := bits / hiddenBit % 2048
  let fraction := bits % hiddenBit
  if biased = 2047 then
    if fraction = 0 then sign ++ "inf" else "nan"
  else if biased = 0 then
    if fraction = 0 then sign ++ "0.0"
    else sign ++ (Rounding.ofDouble fraction (-1074)).shortest.text
  else sign ++ (Rounding.ofDouble (fraction + hiddenBit) ((biased : Int) - 1075)).shortest.text

/-- The floating point number nearest to `digits · 10 ^ exponent`. Exponents far outside the range
of a double are settled without computing the power. -/
def nearestFloat (digits : Nat) (exponent : Int) : Float :=
  let size : Int := (toString digits).length + exponent
  if digits = 0 || size < -400 then 0.0
  else if 400 < size then 1.0 / 0.0
  else Float.ofScientific digits (exponent < 0) exponent.natAbs

end TacFlow.Decimal
