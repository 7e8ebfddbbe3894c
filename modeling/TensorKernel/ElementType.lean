/-! Element types of tensors and expressions: their spellings, widths and the
promotion order. `wrap` is the one reduction of integers into a type. -/
namespace TensorKernel

-- A power is one of natural numbers, also beside the powers of a general algebra.
local instance ElementType.power : Pow Nat Nat := instPowNat

inductive ElementType where
  | bool | i8 | i16 | i32 | i64 | u8 | u16 | u32 | u64 | f32 | f64
deriving DecidableEq

namespace ElementType

def all : List ElementType := [bool, i8, i16, i32, i64, u8, u16, u32, u64, f32, f64]

theorem mem_all (t : ElementType) : t ∈ all := by cases t <;> decide

def name : ElementType → String
  | bool => "bool"
  | i8 => "i8"
  | i16 => "i16"
  | i32 => "i32"
  | i64 => "i64"
  | u8 => "u8"
  | u16 => "u16"
  | u32 => "u32"
  | u64 => "u64"
  | f32 => "f32"
  | f64 => "f64"

def ofName? (s : String) : Option ElementType := all.find? (·.name == s)

def tag : ElementType → String
  | bool => "Bool"
  | i8 => "I8"
  | i16 => "I16"
  | i32 => "I32"
  | i64 => "I64"
  | u8 => "U8"
  | u16 => "U16"
  | u32 => "U32"
  | u64 => "U64"
  | f32 => "F32"
  | f64 => "F64"

def spelling : ElementType → String
  | bool => "bool"
  | i8 => "int8_t"
  | i16 => "int16_t"
  | i32 => "int32_t"
  | i64 => "int64_t"
  | u8 => "uint8_t"
  | u16 => "uint16_t"
  | u32 => "uint32_t"
  | u64 => "uint64_t"
  | f32 => "float"
  | f64 => "double"

def bits : ElementType → Nat
  | bool | i8 | u8 => 8
  | i16 | u16 => 16
  | i32 | u32 | f32 => 32
  | i64 | u64 | f64 => 64

def bytes (t : ElementType) : Nat := t.bits / 8

def isBool : ElementType → Bool
  | bool => true
  | _ => false

def isFloat : ElementType → Bool
  | f32 | f64 => true
  | _ => false

def isSigned : ElementType → Bool
  | i8 | i16 | i32 | i64 => true
  | _ => false

def isUnsigned : ElementType → Bool
  | u8 | u16 | u32 | u64 => true
  | _ => false

def isIntegral (t : ElementType) : Bool := t.isSigned || t.isUnsigned

def isNumeric (t : ElementType) : Bool := !t.isBool

theorem isNumeric_eq (t : ElementType) : t.isNumeric = (t.isIntegral || t.isFloat) := by
  cases t <;> rfl

/-- Common type of two operands. `bool` is below every other type, floats beat
integers, the wider type wins and at equal width the unsigned one does. -/
def promote (a b : ElementType) : ElementType :=
  if a = b then a
  else if a.isBool then b
  else if b.isBool then a
  else match a.isFloat, b.isFloat with
    | true, true => if a.bits ≥ b.bits then a else b
    | true, false => a
    | false, true => b
    | false, false =>
      if a.bits ≠ b.bits then (if a.bits > b.bits then a else b)
      else if a.isUnsigned then a else b

theorem promote_self (a : ElementType) : a.promote a = a := by simp [promote]

theorem promote_comm (a b : ElementType) : a.promote b = b.promote a := by
  cases a <;> cases b <;> rfl

theorem promote_isIntegral {a b : ElementType} (ha : a.isIntegral) (hb : b.isIntegral) :
    (a.promote b).isIntegral := by
  revert ha hb; cases a <;> cases b <;> decide

def floatOf : ElementType → ElementType
  | f32 => f32
  | _ => f64

theorem floatOf_isFloat (t : ElementType) : t.floatOf.isFloat := by cases t <;> rfl

/-- Unsigned type in which wrapping integer arithmetic is carried out. -/
def carrier (t : ElementType) : ElementType := if t.bits = 64 then u64 else u32

theorem bits_le_carrier {t : ElementType} (h : t.isIntegral) : t.bits ≤ t.carrier.bits := by
  revert h; cases t <;> decide

/-- The value of an integral type that is congruent to `z` modulo its width. -/
def wrap (t : ElementType) (z : Int) : Int :=
  if t.isSigned then z.bmod (2 ^ t.bits) else z % (2 ^ t.bits : Nat)

def word (z : Int) : Nat := (Int64.ofInt z).toUInt64.toNat

theorem word_eq (z : Int) : (word z : Int) = z % 18446744073709551616 := by
  have h : word z = (BitVec.ofInt 64 z).toNat := rfl
  rw [h, BitVec.toNat_ofInt]
  omega

def fastWrap (t : ElementType) (z : Int) : Int :=
  match t with
  | i8 => (Int8.ofInt z).toInt
  | i16 => (Int16.ofInt z).toInt
  | i32 => (Int32.ofInt z).toInt
  | i64 => (Int64.ofInt z).toInt
  | bool | u8 => (word z % 0x100 : Nat)
  | u16 => (word z % 0x10000 : Nat)
  | u32 | f32 => (word z % 0x100000000 : Nat)
  | u64 | f64 => word z

@[simp] theorem fastWrap_eq (t : ElementType) (z : Int) : t.fastWrap z = t.wrap z := by
  have h := word_eq z
  cases t <;> simp [fastWrap, wrap, isSigned, bits] <;> omega

def minValue (t : ElementType) : Int := if t.isSigned then -(2 ^ (t.bits - 1) : Nat) else 0

def maxValue (t : ElementType) : Int :=
  if t.isSigned then (2 ^ (t.bits - 1) : Nat) - 1 else (2 ^ t.bits : Nat) - 1

def InRange (t : ElementType) (z : Int) : Prop := t.minValue ≤ z ∧ z ≤ t.maxValue

instance (t : ElementType) (z : Int) : Decidable (t.InRange z) :=
  inferInstanceAs (Decidable (_ ∧ _))

def clamp (t : ElementType) (z : Int) : Int :=
  if z < t.minValue then t.minValue else if t.maxValue < z then t.maxValue else z

theorem wrap_inRange (t : ElementType) (z : Int) : t.InRange (t.wrap z) := by
  have hb : 0 < t.bits := by cases t <;> decide
  obtain ⟨k, hk⟩ : ∃ k, t.bits = k + 1 := ⟨t.bits - 1, by omega⟩
  have hp : 2 ^ t.bits = 2 * 2 ^ (t.bits - 1) := by rw [hk, Nat.pow_succ]; simp [Nat.mul_comm]
  have hpos : 0 < 2 ^ (t.bits - 1) := Nat.two_pow_pos _
  unfold InRange wrap minValue maxValue
  generalize 2 ^ (t.bits - 1) = h at *
  rw [hp]
  split
  · have hl := Int.le_bmod (x := z) (m := 2 * h) (by omega)
    have hu := Int.bmod_lt (x := z) (m := 2 * h) (by omega)
    omega
  · have hl := Int.emod_nonneg z (b := (2 * h : Nat)) (by omega)
    have hu := Int.emod_lt_of_pos z (b := (2 * h : Nat)) (by omega)
    omega

end ElementType
end TensorKernel
