import TensorKernel.ElementType

/-! Binary floating point, bit by bit: decoding into a signed integer times a
power of two, exact re-encoding, truncation and the truncated remainder. -/
namespace TensorKernel

local instance Binary.power : Pow Nat Nat := instPowNat

structure BinaryFormat where
  fractionBits : Nat
  exponentBits : Nat
deriving DecidableEq

inductive Binary where
  | nan
  | infinite (negative : Bool)
  /-- `±significand · 2^exponent`. -/
  | finite (negative : Bool) (significand : Nat) (exponent : Int)
deriving DecidableEq

namespace BinaryFormat

def single : BinaryFormat := ⟨23, 8⟩
def double : BinaryFormat := ⟨52, 11⟩

def bias (f : BinaryFormat) : Nat := 2 ^ (f.exponentBits - 1) - 1

def minExponent (f : BinaryFormat) : Int := 1 - f.bias - f.fractionBits

def signBit (f : BinaryFormat) : Nat := 2 ^ (f.fractionBits + f.exponentBits)

def decode (f : BinaryFormat) (bits : Nat) : Binary :=
  let fraction := bits % 2 ^ f.fractionBits
  let exponent := bits / 2 ^ f.fractionBits % 2 ^ f.exponentBits
  let negative := bits / f.signBit % 2 == 1
  if exponent = 2 ^ f.exponentBits - 1 then
    if fraction = 0 then .infinite negative else .nan
  else if exponent = 0 then .finite negative fraction f.minExponent
  else .finite negative (fraction + 2 ^ f.fractionBits) (f.minExponent + (exponent - 1 : Nat))

/-- Bits of `±m · 2^e`, which the format is assumed to represent exactly. -/
def encode (f : BinaryFormat) (negative : Bool) (m : Nat) (e : Int) : Nat :=
  let sign := if negative then f.signBit else 0
  if m = 0 then sign
  else
    let last := max (e + Nat.log2 m - f.fractionBits) f.minExponent
    let significand :=
      if last ≤ e then m * 2 ^ (e - last).toNat else m / 2 ^ (last - e).toNat
    if significand < 2 ^ f.fractionBits then sign + significand
    else sign + ((last - f.minExponent).toNat + 1) * 2 ^ f.fractionBits
      + (significand - 2 ^ f.fractionBits)

def nanBits (f : BinaryFormat) : Nat :=
  (2 ^ f.exponentBits - 1) * 2 ^ f.fractionBits + 2 ^ (f.fractionBits - 1)

end BinaryFormat

namespace Binary

def truncate : Binary → Int
  | .finite negative m e =>
    let magnitude : Nat := if 0 ≤ e then m * 2 ^ e.toNat else m / 2 ^ (-e).toNat
    if negative then -magnitude else magnitude
  | _ => 0

/-- Integer part brought into the range of an integral type; infinities go to
its ends and a NaN to zero. -/
def saturate (t : ElementType) : Binary → Int
  | .nan => 0
  | .infinite negative => if negative then t.minValue else t.maxValue
  | x => t.clamp x.truncate

theorem saturate_inRange (t : ElementType) (x : Binary) : t.InRange (x.saturate t) := by
  have hz : t.minValue ≤ 0 ∧ (0 : Int) ≤ t.maxValue := by cases t <;> decide
  cases x with
  | nan => exact hz
  | infinite negative =>
    cases negative
    · exact ⟨Int.le_trans hz.1 hz.2, Int.le_refl _⟩
    · exact ⟨Int.le_refl _, Int.le_trans hz.1 hz.2⟩
  | finite negative m e =>
    simp only [saturate, ElementType.clamp, ElementType.InRange]
    split
    · exact ⟨Int.le_refl _, Int.le_trans hz.1 hz.2⟩
    · split
      · exact ⟨Int.le_trans hz.1 hz.2, Int.le_refl _⟩
      · omega

def remainderBits (f : BinaryFormat) (x y : Nat) : Nat :=
  match f.decode x, f.decode y with
  | .finite negative m e, .finite _ n d =>
    if n = 0 then f.nanBits
    else
      let least := min e d
      f.encode negative (m * 2 ^ (e - least).toNat % (n * 2 ^ (d - least).toNat)) least
  | .finite .., .infinite _ => x
  | _, _ => f.nanBits

end Binary

def decodeDouble (x : Float) : Binary := BinaryFormat.double.decode x.toBits.toNat

def decodeSingle (x : Float32) : Binary := BinaryFormat.single.decode x.toBits.toNat

def remainderDouble (x y : Float) : Float :=
  Float.ofBits (Binary.remainderBits .double x.toBits.toNat y.toBits.toNat).toUInt64

def remainderSingle (x y : Float32) : Float32 :=
  Float32.ofBits (Binary.remainderBits .single x.toBits.toNat y.toBits.toNat).toUInt32

/-- The nearest single of a double, bits to bits. A NaN keeps its sign and the digits
that fit, and becomes a quiet one. -/
def narrowBits (bits : UInt64) : UInt32 :=
  match BinaryFormat.double.decode bits.toNat with
  | .nan =>
    let sign := (bits >>> 63).toUInt32 <<< 31
    let digits := (bits >>> 29).toUInt32 % 0x400000
    sign + 0x7fc00000 + digits
  | _ => (Float.ofBits bits).toFloat32.toBits

def doubleOfInt (z : Int) : Float :=
  if z < 0 then (Int64.ofInt z).toFloat else (UInt64.ofNat z.toNat).toFloat

def singleOfInt (z : Int) : Float32 :=
  if z < 0 then (Int64.ofInt z).toFloat32 else (UInt64.ofNat z.toNat).toFloat32

end TensorKernel
