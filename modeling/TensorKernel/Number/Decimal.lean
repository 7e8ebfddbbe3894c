import TensorKernel.Number.Binary

/-! The shortest decimal that reads back as a given binary value, in exact
integer arithmetic, and the layout in which decimals are written. -/
namespace TensorKernel

local instance Decimal.power : Pow Nat Nat := instPowNat

structure Decimal where
  coefficient : Nat
  exponent : Int
deriving DecidableEq

namespace Decimal

def normalize (n : Nat) (e : Int) : Decimal :=
  if n ≠ 0 ∧ n % 10 = 0 then normalize (n / 10) (e + 1) else ⟨n, e⟩
termination_by n
decreasing_by omega

/-- Largest `k` with `10^k ≤ n / d`, for positive `n` and `d`. -/
def magnitude (n d : Nat) : Int :=
  if d ≤ n then ((Nat.toDigits 10 (n / d)).length : Int) - 1
  else
    let j := (Nat.toDigits 10 (d / n)).length
    if d ≤ n * 10 ^ (j - 1) then -((j : Int) - 1) else -(j : Int)

/-- The real interval that rounds to a binary value, as multiples of `1 / scale`:
its ends, the value itself and whether the ends belong to it. -/
structure Interval where
  low : Nat
  value : Nat
  high : Nat
  scale : Nat
  closed : Bool

namespace Interval

/-- The interval of `m · 2^q`. Below a power of two the spacing halves. -/
def ofBinary (f : BinaryFormat) (m : Nat) (q : Int) : Interval :=
  let narrow := m = 2 ^ f.fractionBits ∧ f.minExponent < q
  let up := 2 ^ (q - 2).toNat
  { low := (4 * m - if narrow then 1 else 2) * up
    value := 4 * m * up
    high := (4 * m + 2) * up
    scale := 2 ^ (2 - q).toNat
    closed := m % 2 = 0 }

def holds (i : Interval) (n : Nat) (k : Int) : Bool :=
  let x := n * (i.scale * 10 ^ k.toNat)
  let s := 10 ^ (-k).toNat
  if i.closed then i.low * s ≤ x ∧ x ≤ i.high * s else i.low * s < x ∧ x < i.high * s

/-- The point of the grid `10^k` that stands for the value, if its lower or upper
neighbour there lies in the interval; of two the nearer, and the upper on a tie. -/
def pick? (i : Interval) (k : Int) : Option Nat :=
  let unit := i.scale * 10 ^ k.toNat
  let target := i.value * 10 ^ (-k).toNat
  let below := target / unit
  let above := below + 1
  let down := i.holds below k
  let up := i.holds above k
  if up ∧ (¬down ∨ above * unit - target ≤ target - below * unit) then some above
  else if down then some below
  else none

end Interval

def maxDigits : Nat := 17

/-- The decimal of least length that reads back as `m · 2^q`, for positive `m`. -/
def shortest (f : BinaryFormat) (m : Nat) (q : Int) : Decimal :=
  let i := Interval.ofBinary f m q
  let top := magnitude i.value i.scale
  let found := (List.range maxDigits).findSome? fun (digits : Nat) =>
    let k := top - digits
    (i.pick? k).map fun n => normalize n k
  found.getD ⟨0, 0⟩

/-- Which decimals are written without an exponent, by the power of ten of their
first digit. -/
structure Layout where
  plainFrom : Int
  plainTo : Int

def layout : Layout := ⟨-4, 15⟩

def plainText (d : Decimal) : String :=
  let digits := Nat.toDigits 10 d.coefficient
  let zeros (n : Nat) := List.replicate n '0'
  if 0 ≤ d.exponent then String.ofList (digits ++ zeros d.exponent.toNat) ++ ".0"
  else
    let places := (-d.exponent).toNat
    if digits.length ≤ places then
      "0." ++ String.ofList (zeros (places - digits.length) ++ digits)
    else
      let whole := digits.length - places
      String.ofList (digits.take whole) ++ "." ++ String.ofList (digits.drop whole)

def scientificText (d : Decimal) : String :=
  let digits := Nat.toDigits 10 d.coefficient
  let power := d.exponent + digits.length - 1
  let fraction := digits.drop 1
  String.ofList (digits.take 1)
    ++ (if fraction.isEmpty then "" else "." ++ String.ofList fraction)
    ++ "e" ++ toString power

def text (d : Decimal) : String :=
  let power := d.exponent + (Nat.toDigits 10 d.coefficient).length - 1
  if d.coefficient = 0 ∨ layout.plainFrom ≤ power ∧ power ≤ layout.plainTo then d.plainText
  else d.scientificText

end Decimal

def Binary.text (f : BinaryFormat) : Binary → String
  | .nan => "NaN"
  | .infinite negative => if negative then "-inf" else "inf"
  | .finite negative m q =>
    (if negative then "-" else "") ++ (if m = 0 then ⟨0, 0⟩ else Decimal.shortest f m q : Decimal).text

def doubleText (x : Float) : String := (decodeDouble x).text .double

def singleText (x : Float32) : String := (decodeSingle x).text .single

end TensorKernel
